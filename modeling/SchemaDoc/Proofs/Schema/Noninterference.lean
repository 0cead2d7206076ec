import SchemaDoc.Proofs.Schema.Telling

/-!
# What loading does not see

Two element trees are seen alike if they agree, item by item, on a few attributes and on the texts
of a few children. Everything else may differ: the root itself, elements and attributes of other
names, the children of a column that is no foreign key, all but the last of the children that tell a
part of a reference, and how the columns, permission blocks and other children of a table stand
among each other. Trees that are seen alike are loaded alike, with the same database or the same
fault (`Database.loads_alike_of_seenAlike`).
-/
namespace SchemaDoc

/-- Columns agree on their attributes and, as foreign keys, on what they refer to. -/
structure Column.SeenAlike (a b : Element) : Prop where
  attributes : ∀ name ∈ ["name", "type", "length", "key", "autoincrement"],
    a.attribute? name = b.attribute? name
  reference : a.attribute? "key" = some "foreign" →
    ∀ tag ∈ ["fkey_table", "fkey_column", "fkey_constraint"],
      Element.lastText? tag a.children = Element.lastText? tag b.children

structure Permission.SeenAlike (a b : Element) : Prop where
  user : a.attribute? "user" = b.attribute? "user"
  actions : (a.childrenTagged "permission").map (·.text.getD "") =
    (b.childrenTagged "permission").map (·.text.getD "")

structure Table.SeenAlike (a b : Element) : Prop where
  name : a.attribute? "name" = b.attribute? "name"
  columns : List.Forall₂ Column.SeenAlike (a.childrenTagged "column") (b.childrenTagged "column")
  permissions : List.Forall₂ Permission.SeenAlike (a.childrenTagged "permissions")
    (b.childrenTagged "permissions")

structure Database.SeenAlike (a b : Element) : Prop where
  tables : List.Forall₂ Table.SeenAlike (a.childrenTagged "table") (b.childrenTagged "table")

namespace Element

theorem tag_of_mem_childrenTagged {e child : Element} {tag : String}
    (h : child ∈ e.childrenTagged tag) : child.tag = tag := by
  simpa using (List.mem_filter.mp h).2

/-- What is related among the children of one tag has that tag in common, which faults tell. -/
theorem forall₂_and_tag_eq {R : Element → Element → Prop} {a b : Element} {tag : String}
    (h : List.Forall₂ R (a.childrenTagged tag) (b.childrenTagged tag)) :
    List.Forall₂ (fun x y => R x y ∧ x.tag = y.tag) (a.childrenTagged tag)
      (b.childrenTagged tag) := by
  have ha : ∀ x ∈ a.childrenTagged tag, x.tag = tag := fun _ => tag_of_mem_childrenTagged
  have hb : ∀ y ∈ b.childrenTagged tag, y.tag = tag := fun _ => tag_of_mem_childrenTagged
  generalize a.childrenTagged tag = l at h ha
  generalize b.childrenTagged tag = m at h hb
  induction h with
  | nil => exact .nil
  | cons hxy _ ih =>
    rw [List.forall_mem_cons] at ha hb
    exact .cons ⟨hxy, ha.1.trans hb.1.symm⟩ (ih ha.2 hb.2)

theorem requiredAttribute_eq_of_attribute?_eq {a b : Element} {name : String} (htag : a.tag = b.tag)
    (h : a.attribute? name = b.attribute? name) :
    a.requiredAttribute name = b.requiredAttribute name := by
  rw [requiredAttribute, requiredAttribute, h, htag]

end Element

theorem Key.ofElement_eq_of_seenAlike {a b : Element} (h : Column.SeenAlike a b) :
    Key.ofElement a = Key.ofElement b := by
  have hkey : a.attribute? "key" = b.attribute? "key" := h.attributes "key" (by simp)
  rw [ofElement, ofElement, ← hkey]
  split
  next => rfl
  next hforeign =>
    have htexts := h.reference hforeign
    simp only [List.forall_mem_cons] at htexts
    obtain ⟨htable, hcolumn, hconstraint, -⟩ := htexts
    rw [Reference.ofChildren_eq, Reference.ofChildren_eq, htable, hcolumn, hconstraint]
  next => rfl

theorem Column.ofElement_eq_of_seenAlike {a b : Element} (htag : a.tag = b.tag)
    (h : SeenAlike a b) : ofElement a = ofElement b := by
  have hkey := Key.ofElement_eq_of_seenAlike h
  have hattributes := h.attributes
  simp only [List.forall_mem_cons] at hattributes
  obtain ⟨hname, htype, hlength, -, hauto, -⟩ := hattributes
  have hread : readLength a = readLength b := by rw [readLength, readLength, hlength]
  rw [ofElement, ofElement, Element.requiredAttribute_eq_of_attribute?_eq htag hname,
    Element.requiredAttribute_eq_of_attribute?_eq htag htype, hread, hkey, hauto]

theorem Permission.ofElement_eq_of_seenAlike {a b : Element} (htag : a.tag = b.tag)
    (h : SeenAlike a b) : ofElement a = ofElement b := by
  rw [ofElement, ofElement, Element.requiredAttribute_eq_of_attribute?_eq htag h.user, h.actions]

theorem Table.ofElement_eq_of_seenAlike {a b : Element} (htag : a.tag = b.tag) (h : SeenAlike a b) :
    ofElement a = ofElement b := by
  have hcolumns : (a.childrenTagged "column").mapM Column.ofElement =
      (b.childrenTagged "column").mapM Column.ofElement :=
    mapM_eq_of_forall₂ (Element.forall₂_and_tag_eq h.columns) fun _ _ hc =>
      Column.ofElement_eq_of_seenAlike hc.2 hc.1
  have hpermissions : (a.childrenTagged "permissions").mapM Permission.ofElement =
      (b.childrenTagged "permissions").mapM Permission.ofElement :=
    mapM_eq_of_forall₂ (Element.forall₂_and_tag_eq h.permissions) fun _ _ hp =>
      Permission.ofElement_eq_of_seenAlike hp.2 hp.1
  rw [ofElement, ofElement, Element.requiredAttribute_eq_of_attribute?_eq htag h.name,
    hcolumns, hpermissions]

namespace Database

/-- Trees that are seen alike are loaded alike, to the same database or to the same fault. -/
theorem loads_alike_of_seenAlike (a b : Element) (h : SeenAlike a b) :
    ofElement a = ofElement b := by
  have htables : (a.childrenTagged "table").mapM Table.ofElement =
      (b.childrenTagged "table").mapM Table.ofElement :=
    mapM_eq_of_forall₂ (Element.forall₂_and_tag_eq h.tables) fun _ _ ht =>
      Table.ofElement_eq_of_seenAlike ht.2 ht.1
  rw [ofElement, ofElement, htables]

/-- A table with a foreign key, a plain column and a block of permissions. -/
def tidyTree : Element where
  tag := "database"
  children := [
    { tag := "table"
      attributes := [("name", "t")]
      children := [
        { tag := "column"
          attributes := [("name", "r"), ("type", "int"), ("key", "foreign")]
          children := [
            { tag := "fkey_table", text := some "u" },
            { tag := "fkey_column", text := some "id" }] },
        { tag := "column", attributes := [("name", "c"), ("type", "varchar"), ("length", "8")] },
        { tag := "permissions"
          attributes := [("user", "svc")]
          children := [
            { tag := "permission" }, { tag := "permission", text := some "SELECT" }] }] }]

/-- The same with all that is not seen: another root, elements and attributes of other names, parts
of the reference that are told again later or without a text, parts of one for a plain column, and
another order. -/
def untidyTree : Element where
  tag := "schema"
  attributes := [("name", "x")]
  text := some "text"
  children := [
    { tag := "view", attributes := [("name", "v")] },
    { tag := "table"
      attributes := [("engine", "e"), ("name", "t")]
      text := some "text"
      children := [
        { tag := "permissions"
          attributes := [("user", "svc"), ("name", "n")]
          children := [
            { tag := "permission", text := some "" }, { tag := "note", text := some "DELETE" },
            { tag := "permission", text := some "SELECT" }] },
        { tag := "column"
          attributes := [("type", "int"), ("key", "foreign"), ("name", "r"), ("name", "other")]
          children := [
            { tag := "fkey_table", text := some "old" },
            { tag := "fkey_column", text := some "id" },
            { tag := "fkey_constraint", text := some "k" },
            { tag := "fkey_table", text := some "u" },
            { tag := "fkey_constraint" }] },
        { tag := "index" },
        { tag := "column"
          attributes := [("name", "c"), ("type", "varchar"), ("length", "8")]
          children := [{ tag := "fkey_table", text := some "u" }] }] }]

theorem tidyTree_seenAlike_untidyTree : SeenAlike tidyTree untidyTree := by
  refine ⟨.cons ⟨rfl, .cons ?foreign (.cons ?plain .nil), .cons ?permissions .nil⟩ .nil⟩
  case foreign => exact ⟨by decide, fun _ => by decide⟩
  case plain => exact ⟨by decide, fun hforeign => absurd hforeign (by decide)⟩
  case permissions => exact ⟨rfl, rfl⟩

theorem ofElement_untidyTree :
    SeenAlike tidyTree untidyTree ∧ ofElement tidyTree = ofElement untidyTree ∧
      ofElement tidyTree = .ok ⟨[⟨"t",
        [⟨"r", "int", 0, .foreign ⟨some "u", some "id", none⟩, false⟩,
          ⟨"c", "varchar", 8, .none, false⟩],
        [⟨"svc", ["", "SELECT"]⟩]⟩]⟩ :=
  ⟨tidyTree_seenAlike_untidyTree, loads_alike_of_seenAlike _ _ tidyTree_seenAlike_untidyTree, rfl⟩

end Database

end SchemaDoc
