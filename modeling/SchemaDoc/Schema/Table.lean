import SchemaDoc.Schema.Column
import SchemaDoc.Schema.Permission

/-!
# Tables

A table has a name, columns and permission blocks, each in the order of the document. Names of
columns may repeat; a look-up finds the last of a name. `Table.ofElement` reads the name, then all
columns, then all permission blocks, wherever they stand among each other.
-/
namespace SchemaDoc

structure Table where
  name : String
  columns : List Column
  permissions : List Permission
  deriving DecidableEq, Repr

namespace Table

def ofElement (e : Element) : Except LoadFault Table := do
  let name ← e.requiredAttribute "name"
  let columns ← (e.childrenTagged "column").mapM Column.ofElement
  let permissions ← (e.childrenTagged "permissions").mapM Permission.ofElement
  return ⟨name, columns, permissions⟩

/-- The last column of a name. -/
def findColumn? (t : Table) (name : String) : Option Column :=
  t.columns.reverse.find? (·.name == name)

def primaryKeyColumns (t : Table) : List Column :=
  t.columns.filter (·.isPrimaryKey)

def foreignKeyColumns (t : Table) : List Column :=
  t.columns.filter (·.isForeignKey)

def permissionsFor (t : Table) (user : String) : List Permission :=
  t.permissions.filter (·.user == user)

/-- All actions that some block allows the user. -/
def grantsFor (t : Table) (user : String) : List String :=
  Text.ascending ((t.permissionsFor user).flatMap (·.actions))

theorem findColumn?_eq_none_iff {t : Table} {name : String} :
    t.findColumn? name = none ↔ ∀ c ∈ t.columns, c.name ≠ name := by
  simp [findColumn?]

theorem mem_grantsFor {t : Table} {user action : String} :
    action ∈ t.grantsFor user ↔ ∃ p ∈ t.permissionsFor user, p.allows action := by
  simp [grantsFor, Text.mem_ascending, Permission.allows]

end Table

end SchemaDoc
