/-!
# SQL dialects

The three dialects differ in how they quote, in where foreign keys are declared, and in whether they
know grants. Names are quoted by writing the quote mark of the dialect around them and doubling it
inside (`Dialect.quote`).
-/
namespace SchemaDoc

inductive Dialect
  | postgres
  | mysql
  | sqlite
  deriving DecidableEq, Repr

namespace Dialect

def all : List Dialect := [postgres, mysql, sqlite]

def name : Dialect → String
  | postgres => "postgres"
  | mysql => "mysql"
  | sqlite => "sqlite"

/-- The dialect of a name, in letters of either case. No letter outside of ASCII has one of the
letters of these names as its small letter. -/
def ofName? (name : String) : Option Dialect :=
  match String.ofList (name.toList.map Char.toLower) with
  | "postgres" | "postgresql" | "pg" => some postgres
  | "mysql" | "mariadb" => some mysql
  | "sqlite" | "sqlite3" => some sqlite
  | _ => none

/-- Whether foreign keys are declared inside CREATE TABLE. -/
def inlinesForeignKeys : Dialect → Bool
  | sqlite => true
  | _ => false

def supportsGrants : Dialect → Bool
  | sqlite => false
  | _ => true

def quoteMark : Dialect → Char
  | mysql => '\x60'
  | _ => '"'

theorem ofName?_name (d : Dialect) : ofName? d.name = some d := by
  cases d <;> decide

end Dialect

def doubled (mark : Char) : List Char → List Char
  | [] => []
  | c :: rest => if c = mark then c :: c :: doubled mark rest else c :: doubled mark rest

/-- A text between two marks, with the marks inside doubled. -/
def enquote (mark : Char) (text : String) : String :=
  String.ofList (mark :: doubled mark text.toList ++ [mark])

def Dialect.quote (d : Dialect) (name : String) : String :=
  enquote d.quoteMark name

theorem doubled_of_not_mem {mark : Char} {s : List Char} (h : mark ∉ s) : doubled mark s = s := by
  induction s with
  | nil => rfl
  | cons c rest ih =>
    have hc : c ≠ mark := fun e => h (by simp [e])
    simp [doubled, hc, ih fun hr => h (by simp [hr])]

end SchemaDoc
