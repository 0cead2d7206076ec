import SchemaDoc.Proofs.Sql.StatementReading

/-!
# Running the texts for a database

A server runs what it reads from the texts that it is given, one after another, and stops at a text
that it cannot read or has to refuse (`Dialect.runTexts`). The texts for a database whose names do
not repeat and whose references all resolve lead from nothing to a catalog that records it, the same
in each dialect, exactly if the names of constraints are written as quotations
(`Database.ddl_runs_to_catalog_iff`).
-/
namespace SchemaDoc

theorem exists_forall₂_iff {α β : Type} {R : α → β → Prop} {l : List α} :
    (∃ m, List.Forall₂ R l m) ↔ ∀ a ∈ l, ∃ b, R a b := by
  induction l with
  | nil => simp
  | cons a l ih =>
    rw [List.forall_mem_cons, ← ih]
    simp only [List.forall₂_cons_left_iff]
    constructor
    · rintro ⟨_, b, m, hb, hm, rfl⟩
      exact ⟨⟨b, hb⟩, m, hm⟩
    · rintro ⟨⟨b, hb⟩, m, hm⟩
      exact ⟨_, b, m, hb, hm, rfl⟩

namespace Dialect

variable {σ : Type} {execute : σ → Statement → Option σ}

/-- Runs the statements that texts are, each on the state that the last one has left. -/
def runTexts (d : Dialect) (execute : σ → Statement → Option σ) (state : σ) (texts : List String) :
    Option σ :=
  texts.foldlM (fun state text => (d.statement? text).bind (execute state)) state

theorem runTexts_eq (d : Dialect) (state : σ) (texts : List String) :
    d.runTexts execute state texts = (texts.mapM d.statement?).bind (·.foldlM execute state) := by
  induction texts generalizing state with
  | nil => rfl
  | cons text texts ih =>
    rw [runTexts, List.foldlM_cons, List.mapM_cons]
    cases d.statement? text with
    | none => rfl
    | some s =>
      -- a text behind that is not read ends the run, whether or not this statement is refused
      cases hs : execute state s with
      | none => cases texts.mapM d.statement? <;> simp [hs]
      | some next =>
        have hrest := ih next
        rw [runTexts] at hrest
        simp only [Option.bind_eq_bind, Option.bind_some, hs, hrest]
        cases texts.mapM d.statement? <;> simp [hs]

end Dialect

namespace Statement

variable {d : Dialect} {statements read : List Statement} {texts : List String}

theorem mapM_statement?_eq_some_iff (h : statements.mapM (·.write d) = .ok texts) :
    texts.mapM d.statement? = some read ↔ List.Forall₂ (IsReadAs d) statements read := by
  rw [mapM_eq_some_iff]
  rw [mapM_eq_ok_iff] at h
  induction h generalizing read with
  | nil => simp
  | cons hs _ ih =>
    simp only [List.forall₂_cons_left_iff, statement?_eq_some_iff (write_eq_ok_iff.mp hs), ih]

theorem exists_read_iff (h : statements.mapM (·.write d) = .ok texts) :
    (∃ read, texts.mapM d.statement? = some read) ↔ ∀ s ∈ statements, s.HasQuotedName d := by
  simp only [mapM_statement?_eq_some_iff h, exists_forall₂_iff, exists_isReadAs_iff]

/-- The keys in the statement for a table are keys of the table. -/
def OwnsKeys : Statement → Prop
  | .createTable name _ _ keys => ∀ k ∈ keys, k.table = name
  | .addForeignKey _ => True

end Statement

theorem Table.ownsKeys_creation {d : Dialect} {ifNotExists : Bool} {t : Table} {s : Statement}
    (h : t.creation d ifNotExists = .ok s) : s.OwnsKeys := by
  obtain ⟨columns, -, rfl⟩ := creation_eq_ok_iff.mp h
  intro k hk
  split_ifs at hk
  · exact table_of_mem_foreignKeys hk
  · cases hk

namespace Database

variable {db : Database} {d : Dialect} {ifNotExists : Bool} {statements : List Statement}

theorem ownsKeys_statements (h : db.statements d ifNotExists = .ok statements) :
    ∀ s ∈ statements, s.OwnsKeys := by
  obtain ⟨creations, hcreations, rfl⟩ := statements_eq_ok_iff.mp h
  refine List.forall_mem_append.mpr ⟨?creations, ?additions⟩
  case creations =>
    exact forall_mem_of_forall₂ (mapM_eq_ok_iff.mp hcreations) fun _ _ => Table.ownsKeys_creation
  case additions =>
    rw [flatMap_additions]
    split_ifs
    · simp
    · exact List.forall_mem_map.mpr fun _ _ => trivial

theorem hasQuotedName_statements_iff (h : db.statements d ifNotExists = .ok statements) :
    (∀ s ∈ statements, s.HasQuotedName d) ↔ db.HasQuotedNames d := by
  obtain ⟨creations, hcreations, rfl⟩ := statements_eq_ok_iff.mp h
  have hall : ∀ s ∈ creations, s.HasQuotedName d :=
    forall_mem_of_forall₂ (mapM_eq_ok_iff.mp hcreations) fun t s hs => by
      obtain ⟨columns, -, rfl⟩ := Table.creation_eq_ok_iff.mp hs
      trivial
  rw [List.forall_mem_append, and_iff_right hall, flatMap_additions, HasQuotedNames]
  cases d.inlinesForeignKeys with
  | true => simp
  | false =>
    rw [if_neg Bool.false_ne_true, List.forall_mem_map]
    simp only [Bool.false_eq_true, false_or]
    rfl

end Database

/-- What a server knows of a table that it has been told of in a dialect. -/
def TableEntry.shown (d : Dialect) (e : TableEntry) : TableEntry :=
  { e with columns := e.columns.map (·.shown d) }

namespace Catalog

variable {d : Dialect}

/-- What a server knows that has been told of a catalog in a dialect. In MySQL a text column without
a length has one of 255, and all else is the same. -/
def shown (d : Dialect) (c : Catalog) : Catalog :=
  { c with tables := c.tables.map (·.shown d) }

/-- The tables with their columns, by their names, and the keys. -/
def outline (c : Catalog) : List (String × List String) × List KeyEntry :=
  (c.tables.map fun e => (e.name, e.columns.map (·.name)), c.keys)

theorem map_name_shown (d : Dialect) (columns : List ColumnDefinition) :
    (columns.map (·.shown d)).map (·.name) = columns.map (·.name) := by
  rw [List.map_map]
  rfl

theorem outline_shown (d : Dialect) (c : Catalog) : (c.shown d).outline = c.outline := by
  simp only [outline, shown, List.map_map]
  congr 2
  funext e
  rw [Function.comp_apply, TableEntry.shown, map_name_shown]

theorem hasTable_shown (d : Dialect) (c : Catalog) (name : String) :
    (c.shown d).hasTable name = c.hasTable name := by
  rw [hasTable, shown, List.any_map]
  rfl

theorem hasColumn_shown (d : Dialect) (c : Catalog) (table column : String) :
    (c.shown d).hasColumn table column = c.hasColumn table column := by
  simp only [hasColumn, shown, TableEntry.shown, List.any_map, Function.comp_def]
  rfl

/-- What has been read does to the catalog that is shown what the statement does to the catalog. -/
theorem execute_of_isReadAs {s r : Statement} (h : s.IsReadAs d r) (hkeys : s.OwnsKeys)
    (c : Catalog) : (c.shown d).execute d r = (c.execute d s).map (·.shown d) := by
  cases h with
  | creation name ifNotExists columns keys =>
    have hentries : (keys.map (·.inside name)).map (·.entry) = keys.map (·.entry) := by
      rw [List.map_map, List.map_inj_left]
      intro k hk
      rw [Function.comp_apply, ForeignKey.entry, ForeignKey.entry, hkeys k hk]
      rfl
    simp only [execute, hasTable_shown, map_name_shown, hentries]
    split_ifs <;> simp [shown, TableEntry.shown]
  | addition hmarked =>
    simp only [execute, hasColumn_shown]
    split_ifs <;> rfl

theorem run_of_isReadAs {statements read : List Statement}
    (h : List.Forall₂ (Statement.IsReadAs d) statements read)
    (hkeys : ∀ s ∈ statements, s.OwnsKeys) (c : Catalog) :
    (c.shown d).run d read = (c.run d statements).map (·.shown d) := by
  induction h generalizing c with
  | nil => rfl
  | @cons s r statements read hs _ ih =>
    rw [List.forall_mem_cons] at hkeys
    rw [run, run, List.foldlM_cons, List.foldlM_cons, execute_of_isReadAs hs hkeys.1]
    cases hstep : c.execute d s with
    | none => rfl
    | some next => exact ih hkeys.2 next

def runTexts (d : Dialect) (c : Catalog) (texts : List String) : Option Catalog :=
  d.runTexts (execute d) c texts

end Catalog

theorem KeyEntry.IsOf.unique {table : String} {c : Column} {k k' : KeyEntry} (h : k.IsOf table c)
    (h' : k'.IsOf table c) : k = k' := by
  obtain ⟨htable, hcolumn, r, hr, htarget⟩ := h
  obtain ⟨htable', hcolumn', r', hr', htarget'⟩ := h'
  cases hr.symm.trans hr'
  have hsame := htarget.symm.trans htarget'
  rw [Option.some.injEq, Prod.mk.injEq] at hsame
  obtain ⟨t, c, tt, tc⟩ := k
  rw [KeyEntry.mk.injEq]
  exact ⟨htable.trans htable'.symm, hcolumn.trans hcolumn'.symm, hsame⟩

namespace Database

variable {db : Database} {entries : List TableEntry}

theorem isRecordedBy_toldKeys (hkeys : db.danglingReferences = [])
    (hentries : db.tables.mapM Table.entry = .ok entries) :
    db.IsRecordedBy ⟨entries, db.toldKeys⟩ := by
  refine ⟨hentries, ?_⟩
  rw [← map_entry_foreignKeys]
  exact keys_of_danglingReferences hkeys

theorem IsRecordedBy.keys_eq {c : Catalog} (h : db.IsRecordedBy c)
    (hkeys : db.danglingReferences = []) : c.keys = db.toldKeys := by
  have hunique : Relator.RightUnique fun (p : String × Column) (k : KeyEntry) => k.IsOf p.1 p.2 :=
    fun _ _ _ => KeyEntry.IsOf.unique
  exact hunique.forall₂ h.keys (isRecordedBy_toldKeys hkeys h.tables).keys

theorem run_read {d : Dialect} {ifNotExists : Bool} {statements read : List Statement}
    (hnames : db.tableNames.Nodup) (hcolumns : ∀ t ∈ db.tables, (t.columns.map (·.name)).Nodup)
    (hkeys : db.danglingReferences = []) (hentries : db.tables.mapM Table.entry = .ok entries)
    (hs : db.statements d ifNotExists = .ok statements)
    (hread : List.Forall₂ (Statement.IsReadAs d) statements read) :
    Catalog.run d {} read = some (.shown d ⟨entries, db.toldKeys⟩) := by
  have hrun := Catalog.run_of_isReadAs hread (ownsKeys_statements hs) {}
  rwa [run_statements hnames hcolumns hkeys hentries hs, map_entry_foreignKeys] at hrun

/-- A database whose names do not repeat and whose references all resolve has one catalog that
records it, and what is written for it leads there from nothing, up to what the dialect does not
show, exactly if the names of constraints are written as quotations. -/
theorem ddl_runs_to_catalog_iff (db : Database) (hnames : db.tableNames.Nodup)
    (hcolumns : ∀ t ∈ db.tables, (t.columns.map (·.name)).Nodup)
    (hkeys : db.danglingReferences = []) :
    ∃ catalog, ∀ d ifNotExists texts, db.ddl d ifNotExists = .ok texts →
      db.IsRecordedBy catalog ∧ (catalog.shown d).outline = catalog.outline ∧
        ∀ after, Catalog.runTexts d {} texts = some after ↔
          db.HasQuotedNames d ∧ after = catalog.shown d := by
  cases hentries : db.tables.mapM Table.entry with
  | error type =>
    refine ⟨{}, fun d ifNotExists texts h => ?_⟩
    obtain ⟨statements, hs, -⟩ := ddl_eq_ok_iff.mp h
    obtain ⟨creations, hc, -⟩ := statements_eq_ok_iff.mp hs
    obtain ⟨entries, he⟩ := exists_entries hc
    simp [he] at hentries
  | ok entries =>
    let catalog : Catalog := ⟨entries, db.toldKeys⟩
    refine ⟨catalog, fun d ifNotExists texts h => ⟨isRecordedBy_toldKeys hkeys hentries,
      catalog.outline_shown d, fun after => ?_⟩⟩
    obtain ⟨statements, hs, htexts⟩ := ddl_eq_ok_iff.mp h
    have hrun : ∀ read, texts.mapM d.statement? = some read →
        Catalog.run d {} read = some (catalog.shown d) := fun read hread =>
      run_read hnames hcolumns hkeys hentries hs
        ((Statement.mapM_statement?_eq_some_iff htexts).mp hread)
    rw [← hasQuotedName_statements_iff hs, ← Statement.exists_read_iff htexts, Catalog.runTexts,
      Dialect.runTexts_eq, Option.bind_eq_some_iff]
    constructor
    · rintro ⟨read, hread, hafter⟩
      have hsame := hrun read hread
      rw [Catalog.run, hafter, Option.some.injEq] at hsame
      exact ⟨⟨read, hread⟩, hsame⟩
    · rintro ⟨⟨read, hread⟩, rfl⟩
      exact ⟨read, hread, hrun read hread⟩

/-- Two tables that refer to each other, and one of them to itself. -/
def henAndEgg : Database where
  tables := [
    ⟨"hen", [⟨"id", "int", 0, .primary, true⟩,
      ⟨"egg", "int", 0, .foreign ⟨some "egg", some "id", some "hen_egg"⟩, false⟩,
      ⟨"mother", "int", 0, .foreign ⟨some "hen", some "id", none⟩, false⟩], []⟩,
    ⟨"egg", [⟨"id", "int", 0, .primary, false⟩, ⟨"name", "varchar", 0, .none, false⟩,
      ⟨"hen", "int", 0, .foreign ⟨some "hen", some "id", none⟩, false⟩], []⟩]

theorem ddl_runs_to_catalog_henAndEgg :
    henAndEgg.tableNames.Nodup ∧ (∀ t ∈ henAndEgg.tables, (t.columns.map (·.name)).Nodup) ∧
      henAndEgg.danglingReferences = [] ∧ ∀ d, ∃ texts after, henAndEgg.ddl d true = .ok texts ∧
        Catalog.runTexts d {} texts = some after ∧ after.outline =
          ([("hen", ["id", "egg", "mother"]), ("egg", ["id", "name", "hen"])],
            [⟨"hen", "egg", "egg", "id"⟩, ⟨"hen", "mother", "hen", "id"⟩,
              ⟨"egg", "hen", "hen", "id"⟩]) := by
  have hnames : henAndEgg.tableNames.Nodup := by decide
  have hcolumns : ∀ t ∈ henAndEgg.tables, (t.columns.map (·.name)).Nodup := by decide
  have hkeys : henAndEgg.danglingReferences = [] := by decide
  obtain ⟨catalog, hcatalog⟩ := ddl_runs_to_catalog_iff henAndEgg hnames hcolumns hkeys
  refine ⟨hnames, hcolumns, hkeys, fun d => ?_⟩
  obtain ⟨texts, htexts⟩ : ∃ texts, henAndEgg.ddl d true = .ok texts := by
    cases d <;> exact ⟨_, rfl⟩
  obtain ⟨hrecorded, houtline, hrun⟩ := hcatalog d true texts htexts
  have hquoted : henAndEgg.HasQuotedNames d :=
    hasQuotedNames_of_not_mem (by cases d <;> decide)
  refine ⟨texts, _, htexts, (hrun _).mpr ⟨hquoted, rfl⟩, ?_⟩
  rw [houtline, Catalog.outline, hrecorded.keys_eq hkeys, ← Except.ok.inj hrecorded.tables]
  rfl

/-- A name with a quote mark ends the quotation around it, and no statement is read from the text
that adds its key. -/
theorem constraintName_stops_run :
    ∃ db texts, Database.ofElement (namedKeyTree "a\x60b") = .ok db ∧ db.tableNames.Nodup ∧
      (∀ t ∈ db.tables, (t.columns.map (·.name)).Nodup) ∧ db.danglingReferences = [] ∧
      db.ddl .mysql false = .ok texts ∧ Catalog.runTexts .mysql {} texts = none := by
  let db : Database :=
    ⟨[⟨"t", [⟨"c", "int", 0, .foreign ⟨some "t", some "c", some "a\x60b"⟩, false⟩], []⟩]⟩
  obtain ⟨texts, htexts⟩ : ∃ texts, db.ddl .mysql false = .ok texts := ⟨_, rfl⟩
  refine ⟨db, texts, rfl, by decide, by decide, by decide, htexts, ?_⟩
  obtain ⟨statements, hs, hwritten⟩ := ddl_eq_ok_iff.mp htexts
  have hunread : texts.mapM Dialect.mysql.statement? = none := by
    rw [Option.eq_none_iff_forall_ne_some]
    intro read hread
    have hnames := (Statement.exists_read_iff hwritten).mp ⟨read, hread⟩
    rw [hasQuotedName_statements_iff hs] at hnames
    obtain ⟨s, hname⟩ := hnames.resolve_left (by decide) ⟨some "a\x60b", "t", "c", "t", "c"⟩
      (by decide) "a\x60b" rfl
    exact absurd (ForeignKey.two_dvd_count_of_markedName_eq_quote hname) (by decide)
  rw [Catalog.runTexts, Dialect.runTexts_eq, hunread, Option.bind_none]

end Database

end SchemaDoc
