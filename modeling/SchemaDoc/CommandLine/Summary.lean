import SchemaDoc.Schema.Table

/-!
# Summaries

A table is summed up on a line with its name and counts, followed by a line for each column and for
each permission block.
-/
namespace SchemaDoc

namespace Reference

/-- The target, with question marks for what is not told, and the name of the constraint. -/
def summary (r : Reference) : String :=
  " FK -> " ++ r.table?.getD "?" ++ "." ++ r.column?.getD "?" ++
    match r.constraint? with
    | some name => " [" ++ name ++ "]"
    | none => ""

end Reference

def Column.summary (c : Column) : String :=
  c.name ++ " " ++ c.typeName ++ (if c.length > 0 then "(" ++ toString c.length ++ ")" else "") ++
    (if c.isPrimaryKey then " PK" else "") ++ (if c.autoincrement then " AUTO" else "") ++
    match c.key.reference? with
    | some reference => reference.summary
    | none => ""

def Permission.summary (p : Permission) : String :=
  p.user ++ ": " ++ ", ".intercalate p.actions

def Table.summary (t : Table) : String :=
  t.name ++ " (" ++ toString t.columns.length ++ " columns, " ++
    toString t.permissions.length ++ " grants)\n" ++
    String.join (t.columns.map fun c => "  - " ++ c.summary ++ "\n") ++
    String.join (t.permissions.map fun p => "  * " ++ p.summary ++ "\n")

end SchemaDoc
