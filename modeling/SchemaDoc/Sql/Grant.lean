import SchemaDoc.Sql.Dialect
import SchemaDoc.Schema.Database
import SchemaDoc.Text.Blank

/-!
# Grants

Each permission block of a table becomes one GRANT statement for its user. An action is taken over
without the blanks around it if it is a word, or words, of ASCII letters; others are skipped, and so
are repeats. A block without an action that can be taken over grants nothing.
-/
namespace SchemaDoc

/-- One or more words of ASCII letters, with blanks between them. -/
def isActionWord (action : String) : Bool :=
  !action.isEmpty && action.toList.all fun c => c.isAlpha || c == ' '

/-- The first of each group of equal texts, in order. -/
def withoutRepeats (l : List String) : List String :=
  l.foldl (fun kept s => if s ∈ kept then kept else kept ++ [s]) []

namespace Permission

/-- The actions without the blanks around them. -/
def trimmedActions (p : Permission) : List String :=
  p.actions.map Text.trim

def grantedActions (p : Permission) : List String :=
  withoutRepeats (p.trimmedActions.filter isActionWord)

def skippedActions (p : Permission) : List String :=
  p.trimmedActions.filter (!isActionWord ·)

end Permission

namespace Dialect

/-- A text in MySQL's single quotes: backslashes and single quotes are doubled. -/
def stringLiteral (text : String) : String :=
  String.ofList ('\'' :: doubled '\'' (doubled '\\' text.toList) ++ ['\''])

/-- The user of a grant. MySQL names users by strings. -/
def grantee (d : Dialect) (user : String) : String :=
  match d with
  | .mysql => stringLiteral user
  | _ => d.quote user

def grantText (d : Dialect) (actions : List String) (table user : String) : String :=
  "GRANT " ++ ", ".intercalate actions ++ " ON " ++ d.quote table ++ " TO " ++ d.grantee user

end Dialect

namespace Table

def grant? (d : Dialect) (t : Table) (p : Permission) : Option String :=
  if p.grantedActions.isEmpty then none else some (d.grantText p.grantedActions t.name p.user)

def grants (d : Dialect) (t : Table) : List String :=
  if d.supportsGrants then t.permissions.filterMap (t.grant? d) else []

def grantEvents (d : Dialect) (t : Table) : List Event :=
  if d.supportsGrants then
    t.permissions.flatMap fun p => p.skippedActions.map (.skippedPermission t.name p.user)
  else [.grantsUnsupported d.name t.name]

end Table

namespace Database

def grants (d : Dialect) (db : Database) : List String :=
  db.tables.flatMap (·.grants d)

def grantEvents (d : Dialect) (db : Database) : List Event :=
  db.tables.flatMap (·.grantEvents d)

end Database

private theorem mem_foldl_kept {s : String} {l kept : List String} :
    s ∈ l.foldl (fun kept s => if s ∈ kept then kept else kept ++ [s]) kept ↔ s ∈ kept ∨ s ∈ l := by
  induction l generalizing kept with
  | nil => simp
  | cons t rest ih =>
    rw [List.foldl_cons, ih]
    by_cases h : t ∈ kept
    · by_cases hs : s = t <;> simp_all
    · simp [h, or_assoc]

theorem mem_withoutRepeats {s : String} {l : List String} : s ∈ withoutRepeats l ↔ s ∈ l := by
  simp [withoutRepeats, mem_foldl_kept]

end SchemaDoc
