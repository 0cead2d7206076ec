import SchemaDoc.Sql.Statement
import SchemaDoc.Schema.Database

/-!
# The statements that create a schema

All tables are created first, in the order of the document; then, except where the dialect declares
them inside the tables, the foreign keys are added. A column of an unknown type leaves no statements
at all, nor does one that the dialect cannot write. Tables are worked off one after another: the
types of a table are looked at before it is written, and it is written before the next one is looked
at.
-/
namespace SchemaDoc

inductive DdlFault
  | unsupportedType (table : String) (type : UnsupportedType)
  | unwritable (cause : NoSerialText)
  deriving DecidableEq, Repr

inductive KeyOutcome
  | declared (key : ForeignKey)
  | skipped (table column : String)
  deriving DecidableEq, Repr

namespace KeyOutcome

def key? : KeyOutcome → Option ForeignKey
  | .declared key => some key
  | .skipped _ _ => none

def event? : KeyOutcome → Option Event
  | .declared _ => none
  | .skipped table column => some (.skippedForeignKey table column)

end KeyOutcome

namespace Column

def definition (c : Column) : Except UnsupportedType ColumnDefinition := do
  let type ← c.columnType
  return ⟨c.name, type, c.isPrimaryKey, c.autoincrement⟩

/-- A foreign key is declared if its target is told in full. -/
def keyOutcome? (table : String) (c : Column) : Option KeyOutcome :=
  c.key.reference?.map fun reference =>
    match reference.target? with
    | some (targetTable, targetColumn) =>
      .declared ⟨reference.constraint?, table, c.name, targetTable, targetColumn⟩
    | none => .skipped table c.name

end Column

namespace Table

def keyOutcomes (t : Table) : List KeyOutcome :=
  t.columns.filterMap (·.keyOutcome? t.name)

def foreignKeys (t : Table) : List ForeignKey :=
  t.keyOutcomes.filterMap (·.key?)

def skippedKeys (t : Table) : List Event :=
  t.keyOutcomes.filterMap (·.event?)

def creation (d : Dialect) (ifNotExists : Bool) (t : Table) : Except DdlFault Statement :=
  match t.columns.mapM (·.definition) with
  | .error type => .error (.unsupportedType t.name type)
  | .ok columns =>
    .ok (.createTable t.name ifNotExists columns
      (if d.inlinesForeignKeys then t.foreignKeys else []))

def additions (d : Dialect) (t : Table) : List Statement :=
  if d.inlinesForeignKeys then [] else t.foreignKeys.map .addForeignKey

end Table

def Statement.write (d : Dialect) (s : Statement) : Except DdlFault String :=
  (s.text d).mapError .unwritable

def Table.writeCreation (d : Dialect) (ifNotExists : Bool) (t : Table) :
    Except DdlFault String := do
  let statement ← t.creation d ifNotExists
  statement.write d

namespace Database

/-- The texts of all statements, in the order in which they are to be run. -/
def ddl (d : Dialect) (ifNotExists : Bool) (db : Database) : Except DdlFault (List String) := do
  let creations ← db.tables.mapM (·.writeCreation d ifNotExists)
  let additions ← (db.tables.flatMap (·.additions d)).mapM (·.write d)
  return creations ++ additions

/-- What writing the statements reports. Where keys are declared inside the tables, they are met
table by table up to the first one with a column of an unknown type, otherwise once all tables have
been written. -/
def ddlEvents (d : Dialect) (db : Database) : List Event :=
  if d.inlinesForeignKeys then
    (db.tables.takeWhile fun t => (t.creation d false).isOk).flatMap (·.skippedKeys)
  else
    match db.ddl d false with
    | .ok _ => db.tables.flatMap (·.skippedKeys)
    | .error _ => []

end Database

end SchemaDoc
