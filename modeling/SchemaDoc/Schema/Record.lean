import SchemaDoc.Schema.Database
import SchemaDoc.Json.Value

/-!
# Records

A record is what the model shows of itself: flat named values, with the key of a column told by two
flags and, for a foreign key, what it refers to. The JSON form of a database is that of its record.
-/
namespace SchemaDoc

structure ColumnRecord where
  name : String
  typeName : String
  length : Nat
  nullable : Bool
  isPrimaryKey : Bool
  isForeignKey : Bool
  autoincrement : Bool
  reference? : Option Reference
  deriving DecidableEq, Repr

structure TableRecord where
  name : String
  columns : List ColumnRecord
  permissions : List Permission
  deriving DecidableEq, Repr

structure DatabaseRecord where
  tables : List TableRecord
  deriving DecidableEq, Repr

def Column.record (c : Column) : ColumnRecord :=
  { name := c.name, typeName := c.typeName, length := c.length, nullable := c.nullable
    isPrimaryKey := c.isPrimaryKey, isForeignKey := c.isForeignKey, autoincrement := c.autoincrement
    reference? := c.key.reference? }

def Table.record (t : Table) : TableRecord :=
  ⟨t.name, t.columns.map (·.record), t.permissions⟩

def Database.record (db : Database) : DatabaseRecord :=
  ⟨db.tables.map (·.record)⟩

def Reference.toJson (r : Reference) : Json :=
  .object [("table", .ofOption r.table?), ("column", .ofOption r.column?),
    ("constraint", .ofOption r.constraint?)]

/-- A column without a reference has no member for it. -/
def ColumnRecord.toJson (c : ColumnRecord) : Json :=
  .object <|
    [("name", .string c.name), ("type", .string c.typeName), ("length", .number c.length),
      ("nullable", .bool c.nullable), ("is_primary_key", .bool c.isPrimaryKey),
      ("is_foreign_key", .bool c.isForeignKey), ("autoincrement", .bool c.autoincrement)] ++
    match c.reference? with
    | some reference => [("foreign_key", reference.toJson)]
    | none => []

def Permission.toJson (p : Permission) : Json :=
  .object [("user", .string p.user), ("actions", .array (p.actions.map .string))]

def TableRecord.toJson (t : TableRecord) : Json :=
  .object [("name", .string t.name), ("columns", .array (t.columns.map (·.toJson))),
    ("permissions", .array (t.permissions.map (·.toJson)))]

def DatabaseRecord.toJson (db : DatabaseRecord) : Json :=
  .object [("tables", .array (db.tables.map (·.toJson)))]

/-- The indented JSON text of a database. -/
def Database.jsonText (db : Database) : String :=
  db.record.toJson.pretty

theorem Column.record_injective {c d : Column} (h : c.record = d.record) : c = d := by
  obtain ⟨name, typeName, length, key, auto⟩ := c
  obtain ⟨name', typeName', length', key', auto'⟩ := d
  simp only [Column.record, ColumnRecord.mk.injEq, Column.isPrimaryKey, Column.isForeignKey] at h
  obtain ⟨rfl, rfl, rfl, -, hp, -, rfl, hr⟩ := h
  cases key <;> cases key' <;> simp_all [Key.reference?]

end SchemaDoc
