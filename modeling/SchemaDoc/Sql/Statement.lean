import SchemaDoc.Sql.Dialect
import SchemaDoc.Sql.ColumnType

/-!
# Statements and their text

A statement creates a table or adds a foreign key. `Statement.text` writes it in a dialect; the one
thing that cannot be written is a text column that counts up by itself, in PostgreSQL, which knows
serial columns of numbers only.
-/
namespace SchemaDoc

structure ColumnDefinition where
  name : String
  type : ColumnType
  isPrimaryKey : Bool
  autoincrement : Bool
  deriving DecidableEq, Repr

structure ForeignKey where
  constraint? : Option String
  table : String
  column : String
  targetTable : String
  targetColumn : String
  deriving DecidableEq, Repr

inductive Statement
  | createTable (name : String) (ifNotExists : Bool) (columns : List ColumnDefinition)
      (foreignKeys : List ForeignKey)
  | addForeignKey (key : ForeignKey)
  deriving DecidableEq, Repr

/-- A text column of some length that should count up by itself. -/
structure NoSerialText where
  length : Nat
  deriving DecidableEq, Repr

def NoSerialText.message (u : NoSerialText) : String :=
  let length := if u.length = 0 then "None" else "N(" ++ toString u.length ++ ")"
  "not implemented: String(" ++ length ++ ") doesn't support auto increment"

/-- Texts without a length have the dialect's own. -/
def ColumnType.text (d : Dialect) : ColumnType → String
  | .int => if d = .mysql then "int" else "integer"
  | .varchar 0 => if d = .mysql then "varchar(255)" else "varchar"
  | .varchar (n + 1) => "varchar(" ++ toString (n + 1) ++ ")"

namespace ColumnDefinition

/-- The word for a type that counts up by itself, where the dialect has one. -/
def typeText (d : Dialect) (c : ColumnDefinition) : Except NoSerialText String :=
  if c.autoincrement ∧ d = .postgres then
    match c.type with
    | .int => .ok "serial"
    | .varchar length => .error ⟨length⟩
  else .ok (c.type.text d)

def autoincrementText (d : Dialect) (c : ColumnDefinition) : String :=
  if c.autoincrement then
    match d with
    | .postgres => ""
    | .mysql => " AUTO_INCREMENT"
    | .sqlite => " AUTOINCREMENT"
  else ""

def text (d : Dialect) (c : ColumnDefinition) : Except NoSerialText String := do
  let type ← c.typeText d
  return d.quote c.name ++ " " ++ type ++ (if c.isPrimaryKey then " PRIMARY KEY" else "") ++
    c.autoincrementText d

end ColumnDefinition

namespace ForeignKey

/-- What the key refers to, as it stands in both kinds of statement. -/
def clause (d : Dialect) (k : ForeignKey) : String :=
  "FOREIGN KEY (" ++ d.quote k.column ++ ") REFERENCES " ++ d.quote k.targetTable ++ " (" ++
    d.quote k.targetColumn ++ ")"

/-- The name of the constraint between quote marks, which are not doubled inside. -/
def markedName (d : Dialect) (name : String) : String :=
  d.quoteMark.toString ++ name ++ d.quoteMark.toString

/-- The naming of the constraint. MySQL writes the word for it also without a name. -/
def constraintText (d : Dialect) (k : ForeignKey) : String :=
  match d, k.constraint? with
  | .mysql, name? => "CONSTRAINT " ++ (name?.map (markedName d)).getD "" ++ " "
  | _, some name => "CONSTRAINT " ++ markedName d name ++ " "
  | _, none => ""

end ForeignKey

namespace Statement

def text (d : Dialect) : Statement → Except NoSerialText String
  | .createTable name ifNotExists columns foreignKeys => do
    let definitions ← columns.mapM (·.text d)
    let items := definitions ++ foreignKeys.map (·.clause d)
    return "CREATE TABLE " ++ (if ifNotExists then "IF NOT EXISTS " else "") ++
      d.quote name ++ " ( " ++ ", ".intercalate items ++ " )"
  | .addForeignKey k =>
    .ok ("ALTER TABLE " ++ d.quote k.table ++ " ADD " ++ k.constraintText d ++ k.clause d)

end Statement

end SchemaDoc
