import SchemaDoc.Document.Element
import SchemaDoc.Text.Decimal

/-!
# Columns

A column has a name, the word for its type, a length and a key. A foreign key refers to a column of
another table, and tells as much of it as the document does. `Column.ofElement` looks at the name
first, then at the type, then at the length.
-/
namespace SchemaDoc

/-- What a foreign key refers to. Each part may be left out. -/
structure Reference where
  table? : Option String := none
  column? : Option String := none
  constraint? : Option String := none
  deriving DecidableEq, Repr

namespace Reference

/-- Takes in one child of a column. A later child of the same tag counts, also when it has no
text. -/
def take (r : Reference) (child : Element) : Reference :=
  match child.tag with
  | "fkey_table" => { r with table? := child.text }
  | "fkey_column" => { r with column? := child.text }
  | "fkey_constraint" => { r with constraint? := child.text }
  | _ => r

def ofChildren (children : List Element) : Reference :=
  children.foldl take {}

/-- The table and the column that are referred to, if both are told. -/
def target? (r : Reference) : Option (String × String) :=
  match r.table?, r.column? with
  | some table, some column => some (table, column)
  | _, _ => none

theorem target?_eq_none_iff {r : Reference} :
    r.target? = none ↔ r.table? = none ∨ r.column? = none := by
  obtain ⟨t, c, n⟩ := r
  cases t <;> cases c <;> simp [target?]

end Reference

inductive Key
  | none
  | primary
  | foreign (reference : Reference)
  deriving DecidableEq, Repr

namespace Key

/-- Any other word than `primary` and `foreign` names no key. -/
def ofElement (e : Element) : Key :=
  match e.attribute? "key" with
  | some "primary" => .primary
  | some "foreign" => .foreign (.ofChildren e.children)
  | _ => .none

def reference? : Key → Option Reference
  | .foreign reference => some reference
  | _ => Option.none

end Key

structure Column where
  name : String
  typeName : String
  length : Nat
  key : Key
  autoincrement : Bool
  deriving DecidableEq, Repr

namespace Column

def lengthBound : Nat := 0x100000000

/-- The length that a column element tells; without the attribute it is 0. Blanks around it do not
count. -/
def readLength (e : Element) : Except LoadFault Nat :=
  match e.attribute? "length" with
  | none => .ok 0
  | some raw =>
    match Text.readCount? lengthBound (Text.trimChars raw.toList) with
    | some n => .ok n
    | none => .error (.malformedAttribute "column" "length" raw)

def ofElement (e : Element) : Except LoadFault Column := do
  let name ← e.requiredAttribute "name"
  let typeName ← e.requiredAttribute "type"
  let length ← readLength e
  return {
    name, typeName, length
    key := .ofElement e
    autoincrement := e.attribute? "autoincrement" == some "true" }

def isPrimaryKey (c : Column) : Bool :=
  c.key == .primary

def isForeignKey (c : Column) : Bool :=
  c.key.reference?.isSome

/-- Every column may be left empty: a document cannot say otherwise. -/
def nullable (_ : Column) : Bool := true

theorem not_primary_of_foreign {c : Column} (h : c.isForeignKey) : c.isPrimaryKey = false := by
  obtain ⟨name, typeName, length, key, auto⟩ := c
  cases key with
  | none => cases h
  | primary => cases h
  | foreign reference => simp [isPrimaryKey]

end Column

end SchemaDoc
