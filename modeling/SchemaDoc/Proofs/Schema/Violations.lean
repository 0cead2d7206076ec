import SchemaDoc.Proofs.Schema.Loading
import SchemaDoc.Proofs.Schema.Telling

/-!
# What a document may violate

Everything that an element tree violates stands in one list, in the order in which loading looks at
it: table by table, and of a table its name, then all of its columns, then all of its permission
blocks, wherever these stand among each other. Loading ends with the first member of the list; with
an empty list it ends with the database that the tree tells
(`Database.ofElement_ends_with_first_violation`).
-/
namespace SchemaDoc

namespace Column

structure IsWellFormed (e : Element) : Prop where
  name : ∃ value, e.attribute? "name" = some value
  typeName : ∃ value, e.attribute? "type" = some value
  length : ∃ n, TellsLength (e.attribute? "length") n

def violations (e : Element) : List LoadFault :=
  (e.missing? "name").toList ++ (e.missing? "type").toList ++ (lengthFault? e).toList

theorem lengthFault?_eq_none_iff {e : Element} :
    lengthFault? e = none ↔ ∃ n, TellsLength (e.attribute? "length") n := by
  have hfault : lengthFault? e = faultOf (readLength e) := by
    rw [readLength_eq_failOr, faultOf_failOr]
  rw [hfault, faultOf_eq_none_iff]
  exact exists_congr fun _ => readLength_eq_ok_iff

theorem fault?_eq_none_iff {e : Element} : fault? e = none ↔ IsWellFormed e := by
  rw [fault?, Option.or_eq_none_iff, Option.or_eq_none_iff, Element.missing?_eq_none_iff,
    Element.missing?_eq_none_iff, lengthFault?_eq_none_iff]
  constructor
  · rintro ⟨hname, htype, hlength⟩
    exact ⟨hname, htype, hlength⟩
  · rintro ⟨hname, htype, hlength⟩
    exact ⟨hname, htype, hlength⟩

theorem head?_violations (e : Element) : (violations e).head? = fault? e := by
  rw [violations, fault?, List.head?_append, List.head?_append, Option.head?_toList,
    Option.head?_toList, Option.head?_toList, Option.or_assoc]

end Column

namespace Table

structure IsWellFormed (e : Element) : Prop where
  name : ∃ value, e.attribute? "name" = some value
  columns : ∀ c ∈ e.childrenTagged "column", Column.IsWellFormed c
  users : ∀ p ∈ e.childrenTagged "permissions", ∃ value, p.attribute? "user" = some value

def violations (e : Element) : List LoadFault :=
  (e.missing? "name").toList ++ (e.childrenTagged "column").flatMap Column.violations ++
    (e.childrenTagged "permissions").flatMap fun p => (p.missing? "user").toList

theorem fault?_eq_none_iff {e : Element} : fault? e = none ↔ IsWellFormed e := by
  rw [fault?, Option.or_eq_none_iff, Option.or_eq_none_iff, Element.missing?_eq_none_iff,
    List.findSome?_eq_none_iff, List.findSome?_eq_none_iff]
  simp only [Column.fault?_eq_none_iff, Permission.fault?, Element.missing?_eq_none_iff]
  constructor
  · rintro ⟨hname, hcolumns, husers⟩
    exact ⟨hname, hcolumns, husers⟩
  · rintro ⟨hname, hcolumns, husers⟩
    exact ⟨hname, hcolumns, husers⟩

theorem head?_violations (e : Element) : (violations e).head? = fault? e := by
  rw [violations, fault?, List.head?_append, List.head?_append, Option.head?_toList,
    List.head?_flatMap, List.head?_flatMap, Option.or_assoc]
  simp only [Column.head?_violations, Option.head?_toList]
  rfl

end Table

namespace Database

def IsWellFormed (root : Element) : Prop :=
  ∀ t ∈ root.childrenTagged "table", Table.IsWellFormed t

def violations (root : Element) : List LoadFault :=
  (root.childrenTagged "table").flatMap Table.violations

theorem fault?_eq_none_iff {root : Element} : fault? root = none ↔ IsWellFormed root := by
  rw [fault?, List.findSome?_eq_none_iff]
  exact forall₂_congr fun _ _ => Table.fault?_eq_none_iff

theorem head?_violations (root : Element) : (violations root).head? = fault? root := by
  simp only [violations, fault?, List.head?_flatMap, Table.head?_violations]

/-- Loading ends with a database exactly for a tree that is well-formed at each of its levels. The
database is then the one that the tree tells, item by item; and otherwise loading ends with the
first violation. -/
theorem ofElement_ends_with_first_violation (root : Element) :
    ((∃ db, ofElement root = .ok db) ↔ IsWellFormed root) ∧
      (∀ db, ofElement root = .ok db ↔ db.IsToldBy root) ∧
      ∀ fault, ofElement root = .error fault ↔ (violations root).head? = some fault := by
  have hfault : faultOf (ofElement root) = fault? root := by
    rw [ofElement_eq_failOr, faultOf_failOr]
  refine ⟨?_, fun db => ofElement_eq_ok_iff, fun fault => ?_⟩
  · rw [← faultOf_eq_none_iff, hfault, fault?_eq_none_iff]
  · rw [← faultOf_eq_some_iff, hfault, head?_violations]

/-- A table with a column, and with a table and a column at places where none are looked for. -/
def hutch : Element where
  tag := "table"
  attributes := [("name", "hutch")]
  children := [
    { tag := "table" },
    { tag := "index", children := [{ tag := "column" }] },
    { tag := "column", attributes := [("name", "id"), ("type", "int")] }]

/-- A table whose block without a user stands in front of a column without a type. -/
def lair : Element where
  tag := "table"
  attributes := [("name", "lair")]
  children := [{ tag := "permissions" }, { tag := "column", attributes := [("name", "id")] }]

/-- A table stands inside of an element that is none, and other tables among such elements. -/
def farm (tables : List Element) : Element where
  tag := "database"
  children := { tag := "note", children := [{ tag := "table" }] } :: tables ++ [{ tag := "column" }]

/-- Only tables at the top count, and only columns and blocks of their own. -/
theorem ofElement_ends_with_first_violation_farm :
    (∃ db, ofElement (farm [hutch]) = .ok db) ∧
      ofElement (farm [hutch]) = .ok ⟨[⟨"hutch", [⟨"id", "int", 0, .none, false⟩], []⟩]⟩ ∧
      violations (farm [hutch, lair, { tag := "table" }]) = [.missingAttribute "column" "type",
        .missingAttribute "permissions" "user", .missingAttribute "table" "name"] ∧
      ofElement (farm [hutch, lair, { tag := "table" }]) =
        .error (.missingAttribute "column" "type") := by
  have hid : Column.IsToldBy { tag := "column", attributes := [("name", "id"), ("type", "int")] }
      ⟨"id", "int", 0, .none, false⟩ :=
    ⟨rfl, rfl, .absent, ⟨by decide, by decide⟩, by decide⟩
  have hhutch : Table.IsToldBy hutch ⟨"hutch", [⟨"id", "int", 0, .none, false⟩], []⟩ :=
    ⟨rfl, .cons hid .nil, .nil⟩
  have hformed : IsWellFormed (farm [hutch]) := by
    intro t ht
    cases List.mem_singleton.mp ht
    refine ⟨⟨_, rfl⟩, fun c hc => ?_, nofun⟩
    cases List.mem_singleton.mp hc
    exact ⟨⟨_, rfl⟩, ⟨_, rfl⟩, 0, .absent⟩
  obtain ⟨hloads, htold, -⟩ := ofElement_ends_with_first_violation (farm [hutch])
  obtain ⟨-, -, hfault⟩ :=
    ofElement_ends_with_first_violation (farm [hutch, lair, { tag := "table" }])
  exact ⟨hloads.mpr hformed, (htold _).mpr ⟨.cons hhutch .nil⟩, rfl, (hfault _).mpr rfl⟩

end Database

end SchemaDoc
