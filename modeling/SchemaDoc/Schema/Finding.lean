import SchemaDoc.Schema.Database

/-!
# References that lead nowhere

A foreign key resolves if its table and column are both told, and the last table of that name has a
column of that name. For each one that does not there is one finding, in the order of the document.
-/
namespace SchemaDoc

/-- Why the foreign key in `column` of `table` does not resolve. -/
inductive Finding
  | incomplete (table column : String)
  | unknownTable (table column target : String)
  | unknownColumn (table column targetTable targetColumn : String)
  deriving DecidableEq, Repr

def Finding.message : Finding → String
  | .incomplete table column =>
    table ++ "." ++ column ++ ": foreign key is missing fkey_table or fkey_column"
  | .unknownTable table column target =>
    table ++ "." ++ column ++ ": references unknown table '" ++ target ++ "'"
  | .unknownColumn table column targetTable targetColumn =>
    table ++ "." ++ column ++ ": references unknown column '" ++ targetTable ++ "." ++
      targetColumn ++ "'"

namespace Database

/-- What is wrong with the reference of a column of the table named `table`. -/
def findingFor? (db : Database) (table column : String) (reference : Reference) : Option Finding :=
  match reference.target? with
  | none => some (.incomplete table column)
  | some (targetTable, targetColumn) =>
    match db.findTable? targetTable with
    | none => some (.unknownTable table column targetTable)
    | some target =>
      match target.findColumn? targetColumn with
      | none => some (.unknownColumn table column targetTable targetColumn)
      | some _ => none

/-- What is wrong with a column of the table named `table`. -/
def finding? (db : Database) (table : String) (c : Column) : Option Finding :=
  match c.key with
  | .foreign reference => db.findingFor? table c.name reference
  | _ => none

def danglingReferences (db : Database) : List Finding :=
  db.tables.flatMap fun t => t.columns.filterMap (db.finding? t.name)

theorem finding?_eq_none_of_not_foreign {db : Database} {table : String} {c : Column}
    (h : c.isForeignKey = false) : db.finding? table c = none := by
  unfold finding?
  split
  next r hk => simp [Column.isForeignKey, Key.reference?, hk] at h
  next => rfl

end Database

end SchemaDoc
