import SchemaDoc.Proofs.Traversal
import SchemaDoc.Schema.Database

/-!
# What loading ends with

Reading an element ends with its first fault, or with what the element tells. The two are separate:
`fault?` finds the first fault, in the order in which the parts of an element are looked at, and
`read` takes every part as it is told, with an empty word for one that is missing.
`Database.ofElement_eq_failOr` says that loading is made of nothing else.
-/
namespace SchemaDoc

/-- The fault of an element that lacks an attribute. -/
def Element.missing? (e : Element) (name : String) : Option LoadFault :=
  if (e.attribute? name).isNone then some (.missingAttribute e.tag name) else none

theorem Element.requiredAttribute_eq_failOr (e : Element) (name : String) :
    e.requiredAttribute name = failOr (e.missing? name) ((e.attribute? name).getD "") := by
  rw [requiredAttribute, missing?]
  cases e.attribute? name <;> rfl

theorem Element.missing?_eq_none_iff {e : Element} {name : String} :
    e.missing? name = none ↔ ∃ value, e.attribute? name = some value := by
  rw [missing?]
  cases e.attribute? name <;> simp

namespace Column

/-- The number that an attribute for the length tells, if it tells one. -/
def lengthOf? : Option String → Option Nat
  | none => some 0
  | some raw => Text.readCount? lengthBound (Text.trimChars raw.toList)

def lengthFault? (e : Element) : Option LoadFault :=
  if (lengthOf? (e.attribute? "length")).isNone then
    some (.malformedAttribute "column" "length" ((e.attribute? "length").getD ""))
  else none

def fault? (e : Element) : Option LoadFault :=
  (e.missing? "name").or ((e.missing? "type").or (lengthFault? e))

def read (e : Element) : Column where
  name := (e.attribute? "name").getD ""
  typeName := (e.attribute? "type").getD ""
  length := (lengthOf? (e.attribute? "length")).getD 0
  key := .ofElement e
  autoincrement := e.attribute? "autoincrement" == some "true"

theorem readLength_eq_failOr (e : Element) :
    readLength e = failOr (lengthFault? e) ((lengthOf? (e.attribute? "length")).getD 0) := by
  rw [readLength, lengthFault?]
  cases e.attribute? "length" with
  | none => rfl
  | some raw =>
    cases hn : Text.readCount? lengthBound (Text.trimChars raw.toList) <;>
      simp [lengthOf?, hn, failOr]

theorem ofElement_eq_failOr (e : Element) : ofElement e = failOr (fault? e) (read e) := by
  rw [ofElement, e.requiredAttribute_eq_failOr, e.requiredAttribute_eq_failOr, readLength_eq_failOr]
  apply failOr_bind
  apply failOr_bind
  exact failOr_bind_pure _ _ _

end Column

namespace Permission

def fault? (e : Element) : Option LoadFault :=
  e.missing? "user"

def read (e : Element) : Permission where
  user := (e.attribute? "user").getD ""
  actions := (e.childrenTagged "permission").map fun child => child.text.getD ""

theorem ofElement_eq_failOr (e : Element) : ofElement e = failOr (fault? e) (read e) := by
  rw [ofElement, e.requiredAttribute_eq_failOr]
  exact failOr_bind_pure _ _ _

end Permission

namespace Table

/-- All columns are looked at before the first permission block is. -/
def fault? (e : Element) : Option LoadFault :=
  (e.missing? "name").or
    (((e.childrenTagged "column").findSome? Column.fault?).or
      ((e.childrenTagged "permissions").findSome? Permission.fault?))

def read (e : Element) : Table where
  name := (e.attribute? "name").getD ""
  columns := (e.childrenTagged "column").map Column.read
  permissions := (e.childrenTagged "permissions").map Permission.read

theorem ofElement_eq_failOr (e : Element) : ofElement e = failOr (fault? e) (read e) := by
  have hcolumns : Column.ofElement = fun c => failOr (Column.fault? c) (Column.read c) :=
    funext Column.ofElement_eq_failOr
  have hpermissions : Permission.ofElement = fun p =>
      failOr (Permission.fault? p) (Permission.read p) :=
    funext Permission.ofElement_eq_failOr
  rw [ofElement, e.requiredAttribute_eq_failOr, hcolumns, hpermissions, mapM_failOr, mapM_failOr]
  apply failOr_bind
  apply failOr_bind
  exact failOr_bind_pure _ _ _

end Table

namespace Database

def fault? (root : Element) : Option LoadFault :=
  (root.childrenTagged "table").findSome? Table.fault?

def read (root : Element) : Database where
  tables := (root.childrenTagged "table").map Table.read

theorem ofElement_eq_failOr (root : Element) :
    ofElement root = failOr (fault? root) (read root) := by
  have htables : Table.ofElement = fun t => failOr (Table.fault? t) (Table.read t) :=
    funext Table.ofElement_eq_failOr
  rw [ofElement, htables, mapM_failOr]
  exact failOr_bind_pure _ _ _

/-- Two roots are loaded alike exactly if their first faults are the same, and, where there is none,
they tell the same. -/
theorem ofElement_eq_ofElement_iff {a b : Element} :
    ofElement a = ofElement b ↔ fault? a = fault? b ∧ (fault? a = none → read a = read b) := by
  rw [ofElement_eq_failOr, ofElement_eq_failOr, failOr_eq_failOr_iff]

end Database

end SchemaDoc
