import SchemaDoc.Proofs.Traversal
import SchemaDoc.Sql.Ddl

/-!
# The statements behind the texts

The texts that are written for a database are those of a list of statements, which is made first
(`Database.ddl_eq_ok_iff`): one that creates each table, then one for each foreign key that is not
declared inside its table.
-/
namespace SchemaDoc

namespace Column

/-- The foreign key of a column, if its target is told in full. -/
def foreignKey? (table : String) (c : Column) : Option ForeignKey :=
  (c.keyOutcome? table).bind (·.key?)

theorem foreignKey?_eq_some_iff {table : String} {c : Column} {k : ForeignKey} :
    c.foreignKey? table = some k ↔ ∃ r, c.key = .foreign r ∧ k.constraint? = r.constraint? ∧
      k.table = table ∧ k.column = c.name ∧ r.target? = some (k.targetTable, k.targetColumn) := by
  obtain ⟨constraint, t, n, tt, tc⟩ := k
  cases hk : c.key with
  | none => simp [foreignKey?, keyOutcome?, Key.reference?, hk]
  | primary => simp [foreignKey?, keyOutcome?, Key.reference?, hk]
  | foreign r =>
    cases ht : r.target? with
    | none => simp [foreignKey?, keyOutcome?, Key.reference?, hk, ht, KeyOutcome.key?]
    | some target =>
      simp only [foreignKey?, keyOutcome?, Key.reference?, hk, ht, KeyOutcome.key?, Option.map_some,
        Option.bind_some, Option.some.injEq, ForeignKey.mk.injEq, Key.foreign.injEq,
        exists_eq_left']
      grind

theorem of_definition {c : Column} {e : ColumnDefinition} (h : c.definition = .ok e) :
    e.name = c.name ∧ e.isPrimaryKey = c.isPrimaryKey := by
  obtain ⟨type, -, h⟩ := bind_eq_ok_iff.mp h
  cases h
  exact ⟨rfl, rfl⟩

end Column

namespace Table

theorem foreignKeys_eq_filterMap (t : Table) :
    t.foreignKeys = t.columns.filterMap (·.foreignKey? t.name) :=
  List.filterMap_filterMap

theorem creation_eq_ok_iff {d : Dialect} {ifNotExists : Bool} {t : Table} {s : Statement} :
    t.creation d ifNotExists = .ok s ↔ ∃ columns, t.columns.mapM (·.definition) = .ok columns ∧
      s = .createTable t.name ifNotExists columns
        (if d.inlinesForeignKeys then t.foreignKeys else []) := by
  rw [creation]
  cases t.columns.mapM (·.definition) with
  | error type => simp
  | ok columns =>
    constructor
    · intro h
      cases h
      exact ⟨columns, rfl, rfl⟩
    · rintro ⟨columns, hc, rfl⟩
      cases hc
      rfl

end Table

theorem Statement.write_eq_ok_iff {d : Dialect} {s : Statement} {text : String} :
    s.write d = .ok text ↔ s.text d = .ok text := by
  rw [write]
  cases s.text d <;> simp [Except.mapError]

theorem Table.exists_columns_of_writeCreation {d : Dialect} {ifNotExists : Bool} {t : Table}
    {text : String} (h : t.writeCreation d ifNotExists = .ok text) :
    ∃ columns, List.Forall₂ (fun c e => c.definition = .ok e) t.columns columns ∧
      (Statement.createTable t.name ifNotExists columns
        (if d.inlinesForeignKeys then t.foreignKeys else [])).text d =
        .ok text := by
  obtain ⟨s, hs, htext⟩ := bind_eq_ok_iff.mp h
  obtain ⟨columns, hcolumns, rfl⟩ := creation_eq_ok_iff.mp hs
  exact ⟨columns, mapM_eq_ok_iff.mp hcolumns, Statement.write_eq_ok_iff.mp htext⟩

namespace Database

/-- The statements for a database, in the order in which they are to be run. -/
def statements (d : Dialect) (ifNotExists : Bool) (db : Database) :
    Except DdlFault (List Statement) := do
  let creations ← db.tables.mapM (·.creation d ifNotExists)
  return creations ++ db.tables.flatMap (·.additions d)

theorem statements_eq_ok_iff {d : Dialect} {ifNotExists : Bool} {db : Database}
    {statements : List Statement} :
    db.statements d ifNotExists = .ok statements ↔ ∃ creations,
      db.tables.mapM (·.creation d ifNotExists) = .ok creations ∧
        statements = creations ++ db.tables.flatMap (·.additions d) := by
  rw [Database.statements, bind_eq_ok_iff]
  constructor
  · rintro ⟨creations, hc, hs⟩
    cases hs
    exact ⟨creations, hc, rfl⟩
  · rintro ⟨creations, hc, rfl⟩
    exact ⟨creations, hc, rfl⟩

theorem flatMap_additions (d : Dialect) (db : Database) :
    db.tables.flatMap (·.additions d) =
      if d.inlinesForeignKeys then []
      else (db.tables.flatMap (·.foreignKeys)).map .addForeignKey := by
  cases hd : d.inlinesForeignKeys <;> simp [Table.additions, hd, List.map_flatMap]

/-- A text for each table comes first, then one for each key that is not declared inside its
table. -/
theorem exists_forall₂_of_ddl {d : Dialect} {ifNotExists : Bool} {db : Database}
    {texts : List String} (h : db.ddl d ifNotExists = .ok texts) :
    ∃ creations additions, texts = creations ++ additions ∧
      List.Forall₂ (fun t text => t.writeCreation d ifNotExists = .ok text) db.tables creations ∧
      List.Forall₂ (fun k text => (Statement.addForeignKey k).write d = .ok text)
        (if d.inlinesForeignKeys then [] else db.tables.flatMap (·.foreignKeys)) additions := by
  obtain ⟨creations, hcreations, h⟩ := bind_eq_ok_iff.mp h
  obtain ⟨additions, hadditions, h⟩ := bind_eq_ok_iff.mp h
  cases h
  rw [mapM_eq_ok_iff] at hcreations hadditions
  refine ⟨creations, additions, rfl, hcreations, ?_⟩
  rw [flatMap_additions] at hadditions
  split_ifs at hadditions ⊢
  · rwa [List.forall₂_nil_left_iff] at hadditions ⊢
  · rwa [List.forall₂_map_left_iff] at hadditions

/-- The texts are written from the statements, although each table is written before the next is
looked at. -/
theorem ddl_eq_ok_iff {d : Dialect} {ifNotExists : Bool} {db : Database} {texts : List String} :
    db.ddl d ifNotExists = .ok texts ↔ ∃ statements,
      db.statements d ifNotExists = .ok statements ∧ statements.mapM (·.write d) = .ok texts := by
  have hcreations : ∀ r, db.tables.mapM (·.writeCreation d ifNotExists) = .ok r ↔ ∃ creations,
      db.tables.mapM (·.creation d ifNotExists) = .ok creations ∧
          creations.mapM (·.write d) = .ok r :=
    fun _ => mapM_bind_eq_ok_iff
  simp only [ddl, bind_eq_ok_iff, hcreations, statements_eq_ok_iff]
  constructor
  · rintro ⟨a, ⟨creations, hc, ha⟩, b, hb, h⟩
    cases h
    exact ⟨_, ⟨creations, hc, rfl⟩, mapM_append_eq_ok_iff.mpr ⟨a, b, ha, hb, rfl⟩⟩
  · rintro ⟨_, ⟨creations, hc, rfl⟩, h⟩
    obtain ⟨a, b, ha, hb, rfl⟩ := mapM_append_eq_ok_iff.mp h
    exact ⟨a, ⟨creations, hc, ha⟩, b, hb, rfl⟩

end Database

end SchemaDoc
