import Mathlib.Data.List.Induction
import SchemaDoc.Proofs.Traversal
import SchemaDoc.Schema.Database

/-!
# What elements tell

An element tells a column, a block of permissions, a table or a database where each part of these
stands in it. This is said without an order in which the parts are looked at: lengths by the form in
which numbers are written, references by the last child of a tag, and lists item by item, from the
children of one tag and from nothing below them. A database is loaded from exactly the elements that
tell it (`Database.ofElement_eq_ok_iff`).
-/
namespace SchemaDoc

namespace Text

/-- A text counts a number if it is written in ASCII digits, with at most one plus sign in front,
and lies below the bound. -/
def IsCount (bound : Nat) (s : List Char) (n : Nat) : Prop :=
  ∃ sign digits, s = sign ++ digits ∧ (sign = [] ∨ sign = ['+']) ∧ digits ≠ [] ∧
    (∀ c ∈ digits, c.isDigit) ∧ n = Nat.ofDigitChars 10 digits 0 ∧ n < bound

theorem exists_sign_append_unsigned (s : List Char) :
    ∃ sign, (sign = [] ∨ sign = ['+']) ∧ s = sign ++ unsigned s := by
  unfold unsigned
  split
  next digits => exact ⟨['+'], .inr rfl, rfl⟩
  next => exact ⟨[], .inl rfl, rfl⟩

theorem unsigned_of_digits {digits : List Char} (h : ∀ c ∈ digits, c.isDigit) :
    unsigned digits = digits := by
  unfold unsigned
  split
  next rest =>
    have hplus := h '+' (by simp)
    simp at hplus
  next => rfl

theorem readCount?_eq_some_iff {bound n : Nat} {s : List Char} :
    readCount? bound s = some n ↔ IsCount bound s n := by
  constructor
  · intro h
    simp only [readCount?] at h
    split at h
    next hcount =>
      cases h
      obtain ⟨hne, hall, hlt⟩ := hcount
      obtain ⟨sign, hsign, hs⟩ := exists_sign_append_unsigned s
      exact ⟨sign, unsigned s, hs, hsign, hne, List.all_eq_true.mp hall, rfl, hlt⟩
    next => cases h
  · rintro ⟨sign, digits, rfl, hsign, hne, hall, rfl, hlt⟩
    have hdigits : unsigned (sign ++ digits) = digits := by
      rcases hsign with rfl | rfl
      · exact unsigned_of_digits hall
      · rfl
    simp only [readCount?, hdigits]
    exact if_pos ⟨hne, List.all_eq_true.mpr hall, hlt⟩

end Text

namespace Element

/-- The text of the last of some elements that has a tag. -/
def lastText? (tag : String) (elements : List Element) : Option String :=
  (elements.filter (·.tag = tag)).getLast?.bind (·.text)

theorem lastText?_append_singleton (tag : String) (elements : List Element) (e : Element) :
    lastText? tag (elements ++ [e]) = if e.tag = tag then e.text else lastText? tag elements := by
  rw [lastText?, lastText?, List.filter_append, List.getLast?_append]
  by_cases h : e.tag = tag <;> simp [h]

theorem requiredAttribute_eq_ok_iff {e : Element} {name value : String} :
    e.requiredAttribute name = .ok value ↔ e.attribute? name = some value := by
  rw [requiredAttribute]
  cases e.attribute? name <;> simp

end Element

namespace Reference

theorem ofChildren_eq (children : List Element) :
    ofChildren children =
      ⟨Element.lastText? "fkey_table" children, Element.lastText? "fkey_column" children,
        Element.lastText? "fkey_constraint" children⟩ := by
  induction children using List.reverseRecOn with
  | nil => rfl
  | append_singleton children child ih =>
    have hlast : ofChildren (children ++ [child]) = (ofChildren children).take child :=
      List.foldl_concat take {} child children
    rw [hlast, ih, take]
    simp only [Element.lastText?_append_singleton]
    split
    next h => simp [h]
    next h => simp [h]
    next h => simp [h]
    next htable hcolumn hconstraint =>
      rw [if_neg htable, if_neg hcolumn, if_neg hconstraint]

end Reference

/-- What an attribute for the length tells: 0 where there is none, and else the number that it
counts, apart from blanks around it. -/
inductive Column.TellsLength : Option String → Nat → Prop
  | absent : TellsLength none 0
  | counted {raw : String} {n : Nat} (h : Text.IsCount lengthBound (Text.trimChars raw.toList) n) :
    TellsLength (some raw) n

/-- An element tells the part of its column among the keys. -/
def Key.IsToldBy (e : Element) : Key → Prop
  | .none => e.attribute? "key" ≠ some "primary" ∧ e.attribute? "key" ≠ some "foreign"
  | .primary => e.attribute? "key" = some "primary"
  | .foreign reference => e.attribute? "key" = some "foreign" ∧
      reference.table? = Element.lastText? "fkey_table" e.children ∧
      reference.column? = Element.lastText? "fkey_column" e.children ∧
      reference.constraint? = Element.lastText? "fkey_constraint" e.children

structure Column.IsToldBy (e : Element) (c : Column) : Prop where
  name : e.attribute? "name" = some c.name
  typeName : e.attribute? "type" = some c.typeName
  length : TellsLength (e.attribute? "length") c.length
  key : c.key.IsToldBy e
  autoincrement : c.autoincrement ↔ e.attribute? "autoincrement" = some "true"

structure Permission.IsToldBy (e : Element) (p : Permission) : Prop where
  user : e.attribute? "user" = some p.user
  actions : List.Forall₂ (fun child action => child.text = some action ∨
    child.text = none ∧ action = "") (e.childrenTagged "permission") p.actions

structure Table.IsToldBy (e : Element) (t : Table) : Prop where
  name : e.attribute? "name" = some t.name
  columns : List.Forall₂ Column.IsToldBy (e.childrenTagged "column") t.columns
  permissions : List.Forall₂ Permission.IsToldBy (e.childrenTagged "permissions") t.permissions

structure Database.IsToldBy (root : Element) (db : Database) : Prop where
  tables : List.Forall₂ Table.IsToldBy (root.childrenTagged "table") db.tables

theorem Column.readLength_eq_ok_iff {e : Element} {n : Nat} :
    readLength e = .ok n ↔ TellsLength (e.attribute? "length") n := by
  rw [readLength]
  cases e.attribute? "length" with
  | none =>
    constructor
    · intro h
      cases h
      exact .absent
    · intro h
      cases h
      rfl
  | some raw =>
    cases hcount : Text.readCount? lengthBound (Text.trimChars raw.toList) with
    | none =>
      refine iff_of_false (by simp [hcount]) ?_
      intro h
      cases h with
      | counted h =>
        rw [← Text.readCount?_eq_some_iff, hcount] at h
        cases h
    | some m =>
      simp only [hcount, Except.ok.injEq]
      constructor
      · rintro rfl
        exact .counted (Text.readCount?_eq_some_iff.mp hcount)
      · intro h
        cases h with
        | counted h =>
          rw [← Text.readCount?_eq_some_iff, hcount] at h
          cases h
          rfl

theorem Key.ofElement_eq_iff {e : Element} {key : Key} :
    Key.ofElement e = key ↔ key.IsToldBy e := by
  rw [ofElement, Reference.ofChildren_eq]
  split
  next h => cases key <;> simp [IsToldBy, h]
  next h =>
    cases key with
    | none => simp [IsToldBy, h]
    | primary => simp [IsToldBy, h]
    | foreign reference =>
      obtain ⟨table?, column?, constraint?⟩ := reference
      simp [IsToldBy, h, eq_comm]
  next hprimary hforeign => cases key <;> simp_all [IsToldBy]

theorem Column.ofElement_eq_ok_iff {e : Element} {c : Column} :
    ofElement e = .ok c ↔ c.IsToldBy e := by
  simp only [ofElement, bind_eq_ok_iff, Element.requiredAttribute_eq_ok_iff, readLength_eq_ok_iff]
  constructor
  · rintro ⟨name, hname, typeName, htype, length, hlength, h⟩
    cases h
    exact ⟨hname, htype, hlength, Key.ofElement_eq_iff.mp rfl, beq_iff_eq⟩
  · rintro ⟨hname, htype, hlength, hkey, hauto⟩
    refine ⟨_, hname, _, htype, _, hlength, ?_⟩
    have hflag : (e.attribute? "autoincrement" == some "true") = c.autoincrement := by
      rw [Bool.eq_iff_iff, beq_iff_eq, hauto]
    rw [Key.ofElement_eq_iff.mpr hkey, hflag]
    rfl

theorem Permission.ofElement_eq_ok_iff {e : Element} {p : Permission} :
    ofElement e = .ok p ↔ p.IsToldBy e := by
  have hactions : List.Forall₂
      (fun (child : Element) action => child.text = some action ∨ child.text = none ∧ action = "")
      (e.childrenTagged "permission") p.actions ↔
        (e.childrenTagged "permission").map (fun child => child.text.getD "") = p.actions := by
    rw [← List.forall₂_eq_eq_eq, List.forall₂_map_left_iff]
    refine iff_of_eq (congrArg (List.Forall₂ · _ _) ?_)
    funext child action
    cases child.text <;> simp [eq_comm]
  simp only [ofElement, bind_eq_ok_iff, Element.requiredAttribute_eq_ok_iff]
  constructor
  · rintro ⟨user, huser, h⟩
    cases h
    exact ⟨huser, hactions.mpr rfl⟩
  · rintro ⟨huser, h⟩
    exact ⟨_, huser, by rw [hactions.mp h]; rfl⟩

theorem Table.ofElement_eq_ok_iff {e : Element} {t : Table} :
    ofElement e = .ok t ↔ t.IsToldBy e := by
  simp only [ofElement, bind_eq_ok_iff, Element.requiredAttribute_eq_ok_iff, mapM_eq_ok_iff,
    Column.ofElement_eq_ok_iff, Permission.ofElement_eq_ok_iff]
  constructor
  · rintro ⟨name, hname, columns, hcolumns, permissions, hpermissions, h⟩
    cases h
    exact ⟨hname, hcolumns, hpermissions⟩
  · rintro ⟨hname, hcolumns, hpermissions⟩
    exact ⟨_, hname, _, hcolumns, _, hpermissions, rfl⟩

theorem Database.ofElement_eq_ok_iff {root : Element} {db : Database} :
    ofElement root = .ok db ↔ db.IsToldBy root := by
  simp only [ofElement, bind_eq_ok_iff, mapM_eq_ok_iff, Table.ofElement_eq_ok_iff]
  constructor
  · rintro ⟨tables, htables, h⟩
    cases h
    exact ⟨htables⟩
  · rintro ⟨htables⟩
    exact ⟨_, htables, rfl⟩

end SchemaDoc
