import SchemaDoc.Schema.Table
import SchemaDoc.Event

/-!
# Databases

A database is the list of tables of a schema document: the children of its root that are tagged
`table`. One fault anywhere in them leaves no database at all. A text is read with the attributes
that have no namespace (`Database.parse`).
-/
namespace SchemaDoc

structure Database where
  tables : List Table
  deriving DecidableEq, Repr

namespace Database

def ofElement (root : Element) : Except LoadFault Database := do
  let tables ← (root.childrenTagged "table").mapM Table.ofElement
  return ⟨tables⟩

def parse (text : String) : Except LoadFault Database := do
  let root ← Element.parsePlain text
  ofElement root

/-- The children that are passed over, up to the first table that cannot be read. -/
def passedOver : List Element → List Event
  | [] => []
  | e :: rest =>
    if e.tag = "table" then
      match Table.ofElement e with
      | .ok _ => passedOver rest
      | .error _ => []
    else .ignoredElement e.tag :: passedOver rest

def columnCount (db : Database) : Nat :=
  (db.tables.flatMap (·.columns)).length

/-- What reading a database from `root` reports. -/
def loadEvents (root : Element) : List Event :=
  passedOver root.children ++
    match ofElement root with
    | .ok db => [.modelBuilt db.tables.length db.columnCount]
    | .error _ => []

def tableNames (db : Database) : List String :=
  db.tables.map (·.name)

/-- The last table of a name. -/
def findTable? (db : Database) (name : String) : Option Table :=
  db.tables.reverse.find? (·.name == name)

theorem findTable?_eq_none_iff {db : Database} {name : String} :
    db.findTable? name = none ↔ ∀ t ∈ db.tables, t.name ≠ name := by
  simp [findTable?]

end Database

end SchemaDoc
