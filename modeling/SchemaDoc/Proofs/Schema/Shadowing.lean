import SchemaDoc.Proofs.Schema.Image
import SchemaDoc.Proofs.Schema.Resolution

/-!
# Look-ups among children that are added

A look-up finds what the last child of a name is read as, and nothing exactly if there is no child
of the name (`FindsLast`). So children that are added at the end of a document or of a table hide
those of their own names and no others (`FindsLast.shadows`), and a column is looked for in the last
table of a name alone, not in an earlier one that may have it.
-/
namespace SchemaDoc

variable {α β : Type}

theorem find?_eq_some_iff_of_forall₂ {ε : Type} {f : α → Except ε β} {p : α → Bool} {q : β → Bool}
    {l : List α} {r : List β} (h : List.Forall₂ (fun a b => f a = .ok b) l r)
    (hpq : ∀ a b, f a = .ok b → q b = p a) {b : β} :
    r.find? q = some b ↔ ∃ a, l.find? p = some a ∧ f a = .ok b := by
  induction h with
  | nil => simp
  | @cons a c _ _ hac _ ih =>
    rw [List.find?_cons, List.find?_cons, hpq a c hac]
    cases p a with
    | true => simp [hac]
    | false => exact ih

/-- The last of some elements with a name. -/
def Element.IsLastNamed (elements : List Element) (name : String) (e : Element) : Prop :=
  IsLastWith (·.attribute? "name" = some name) elements e

/-- A look-up by name in what some elements are read as. It finds what the last element of the name
is read as. -/
structure FindsLast (read : Element → Except LoadFault α) (elements : List Element)
    (find : String → Option α) : Prop where
  eq_some_iff : ∀ name a, find name = some a ↔ ∃ e, Element.IsLastNamed elements name e ∧
    read e = .ok a
  eq_none_iff : ∀ name, find name = none ↔ ∀ e ∈ elements, e.attribute? "name" ≠ some name

/-- What is added hides what has the same name and nothing else: the last of the added elements
counts, and where none has the name a look-up ends as before. -/
structure Shadows (read : Element → Except LoadFault α) (added : List Element)
    (before after : String → Option α) : Prop where
  found : ∀ name e, Element.IsLastNamed added name e → ∃ a, read e = .ok a ∧ after name = some a
  kept : ∀ name, (∀ e ∈ added, e.attribute? "name" ≠ some name) → after name = before name

section

variable {read : Element → Except LoadFault α}

theorem findsLast_of_mapM {elements : List Element} {items : List α} {name : α → String}
    (h : elements.mapM read = .ok items)
    (hname : ∀ e a, read e = .ok a → e.attribute? "name" = some (name a)) :
    FindsLast read elements fun wanted => items.reverse.find? (name · == wanted) where
  eq_some_iff wanted a := by
    have hreverse := List.forall₂_reverse_iff.mpr (mapM_eq_ok_iff.mp h)
    simp only [Element.IsLastNamed, isLastWith_iff_find?_reverse]
    refine find?_eq_some_iff_of_forall₂ hreverse fun e b hread => ?_
    rw [hname e b hread, Bool.eq_iff_iff, beq_iff_eq, decide_eq_true_iff, Option.some_inj]
  eq_none_iff wanted := by
    have hsame : ∀ e a, read e = .ok a → (name a ≠ wanted ↔ e.attribute? "name" ≠ some wanted) := by
      intro e a hread
      rw [hname e a hread, ne_eq, ne_eq, Option.some_inj]
    simpa using forall_mem_iff_of_mapM h hsame

/-- Where a look-up finds the last of some elements, and another one the last of these and of
further ones behind them, the further ones shadow the others. -/
theorem FindsLast.shadows {elements added : List Element} {before after : String → Option α}
    (hbefore : FindsLast read elements before) (hafter : FindsLast read (elements ++ added) after)
    (hread : ∀ e ∈ added, ∃ a, read e = .ok a) : Shadows read added before after where
  found name e he := by
    obtain ⟨a, ha⟩ := hread e he.mem
    exact ⟨a, ha, (hafter.eq_some_iff name a).mpr ⟨e, isLastWith_append_iff.mpr (.inl he), ha⟩⟩
  kept name hnone := by
    have hlast : ∀ e, Element.IsLastNamed (elements ++ added) name e ↔
        Element.IsLastNamed elements name e := by
      intro e
      have hadded : ¬Element.IsLastNamed added name e := by
        rintro ⟨front, behind, rfl, hname, -⟩
        exact hnone e (by simp) hname
      exact isLastWith_append_iff.trans ((or_iff_right hadded).trans (and_iff_right hnone))
    ext a
    simp only [hafter.eq_some_iff, hbefore.eq_some_iff, hlast]

end

theorem exists_mapM_of_forall {ε : Type} {f : α → Except ε β} {l : List α}
    (h : ∀ a ∈ l, ∃ b, f a = .ok b) : ∃ r, l.mapM f = .ok r := by
  rw [← faultOf_eq_none_iff, faultOf_mapM, List.findSome?_eq_none_iff]
  exact fun a ha => faultOf_eq_none_iff.mpr (h a ha)

namespace Element

variable {e : Element} {tag : String} {added : List Element}

theorem childrenTagged_withChildren (h : ∀ child ∈ added, child.tag = tag) :
    (e.withChildren added).childrenTagged tag = e.childrenTagged tag ++ added := by
  rw [childrenTagged, children_withChildren, List.filter_append, ← childrenTagged,
    List.filter_eq_self.mpr (by simpa using h)]

theorem childrenTagged_withChildren_of_ne {other : String} (h : ∀ child ∈ added, child.tag = tag)
    (hne : tag ≠ other) : (e.withChildren added).childrenTagged other = e.childrenTagged other := by
  have hnone : added.filter (·.tag = other) = [] :=
    List.filter_eq_nil_iff.mpr fun child hchild => by simpa [h child hchild] using hne
  rw [childrenTagged, children_withChildren, List.filter_append, hnone, List.append_nil,
    childrenTagged]

end Element

theorem exists_shadowing {read : Element → Except LoadFault α} {load : Element → Except LoadFault β}
    {find : β → String → Option α} {tag : String}
    (hfind : ∀ {e b}, load e = .ok b → FindsLast read (e.childrenTagged tag) (find b))
    (hload : ∀ {e b added items}, load e = .ok b → (∀ child ∈ added, child.tag = tag) →
      added.mapM read = .ok items → ∃ b', load (e.withChildren added) = .ok b')
    {e : Element} {b : β} {added : List Element} (h : load e = .ok b)
    (hadded : ∀ child ∈ added, child.tag = tag ∧ ∃ a, read child = .ok a) :
    ∃ b', load (e.withChildren added) = .ok b' ∧ Shadows read added (find b) (find b') := by
  have htag : ∀ child ∈ added, child.tag = tag := fun child hchild => (hadded child hchild).1
  have hread : ∀ child ∈ added, ∃ a, read child = .ok a :=
    fun child hchild => (hadded child hchild).2
  obtain ⟨items, hitems⟩ := exists_mapM_of_forall hread
  obtain ⟨b', hb'⟩ := hload h htag hitems
  have hafter := hfind hb'
  rw [Element.childrenTagged_withChildren htag] at hafter
  exact ⟨b', hb', (hfind h).shadows hafter hread⟩

namespace Table

variable {e : Element} {t : Table}

theorem mapM_columns (h : ofElement e = .ok t) :
    (e.childrenTagged "column").mapM Column.ofElement = .ok t.columns :=
  mapM_eq_ok_iff.mpr ((ofElement_eq_ok_iff.mp h).columns.imp fun _ _ =>
    Column.ofElement_eq_ok_iff.mpr)

theorem findsLast_findColumn? (h : ofElement e = .ok t) :
    FindsLast Column.ofElement (e.childrenTagged "column") t.findColumn? :=
  findsLast_of_mapM (mapM_columns h) fun _ _ hc => (Column.ofElement_eq_ok_iff.mp hc).name

theorem ofElement_withChildren {added : List Element} {columns : List Column}
    (h : ofElement e = .ok t) (htag : ∀ child ∈ added, child.tag = "column")
    (hadded : added.mapM Column.ofElement = .ok columns) :
    ofElement (e.withChildren added) = .ok { t with columns := t.columns ++ columns } := by
  obtain ⟨hname, hcolumns, hpermissions⟩ := ofElement_eq_ok_iff.mp h
  refine ofElement_eq_ok_iff.mpr ⟨?_, ?_, ?_⟩
  · rwa [Element.attribute?_withChildren]
  · rw [Element.childrenTagged_withChildren htag]
    exact List.rel_append hcolumns ((mapM_eq_ok_iff.mp hadded).imp fun _ _ =>
      Column.ofElement_eq_ok_iff.mp)
  · rwa [Element.childrenTagged_withChildren_of_ne htag (by decide)]

end Table

namespace Database

variable {root : Element} {db : Database}

theorem mapM_tables (h : ofElement root = .ok db) :
    (root.childrenTagged "table").mapM Table.ofElement = .ok db.tables :=
  mapM_eq_ok_iff.mpr ((ofElement_eq_ok_iff.mp h).tables.imp fun _ _ =>
    Table.ofElement_eq_ok_iff.mpr)

theorem findsLast_findTable? (h : ofElement root = .ok db) :
    FindsLast Table.ofElement (root.childrenTagged "table") db.findTable? :=
  findsLast_of_mapM (mapM_tables h) fun _ _ ht => (Table.ofElement_eq_ok_iff.mp ht).name

theorem ofElement_withChildren {added : List Element} {tables : List Table}
    (h : ofElement root = .ok db) (htag : ∀ child ∈ added, child.tag = "table")
    (hadded : added.mapM Table.ofElement = .ok tables) :
    ofElement (root.withChildren added) = .ok ⟨db.tables ++ tables⟩ := by
  refine ofElement_eq_ok_iff.mpr ⟨?_⟩
  rw [Element.childrenTagged_withChildren htag]
  exact List.rel_append (ofElement_eq_ok_iff.mp h).tables
    ((mapM_eq_ok_iff.mp hadded).imp fun _ _ => Table.ofElement_eq_ok_iff.mp)

/-- The last column of a name in the last table of a name. -/
def lookUp? (db : Database) (table column : String) : Option Column :=
  (db.findTable? table).bind (·.findColumn? column)

theorem exists_table_of_isLastNamed (h : ofElement root = .ok db) {name : String} {e : Element}
    (he : Element.IsLastNamed (root.childrenTagged "table") name e) :
    ∃ t, Table.ofElement e = .ok t ∧ db.findTable? name = some t := by
  obtain ⟨t, -, ht⟩ := exists_mem_of_mapM (mapM_tables h) he.mem
  exact ⟨t, ht, ((findsLast_findTable? h).eq_some_iff name t).mpr ⟨e, he, ht⟩⟩

theorem lookUp?_eq_some_iff (h : ofElement root = .ok db) {table column : String} {c : Column} :
    db.lookUp? table column = some c ↔
      ∃ e k, Element.IsLastNamed (root.childrenTagged "table") table e ∧
        Element.IsLastNamed (e.childrenTagged "column") column k ∧ Column.ofElement k = .ok c := by
  rw [lookUp?, Option.bind_eq_some_iff]
  constructor
  · rintro ⟨t, ht, hc⟩
    obtain ⟨e, he, hread⟩ := ((findsLast_findTable? h).eq_some_iff table t).mp ht
    obtain ⟨k, hk, hcolumn⟩ := ((Table.findsLast_findColumn? hread).eq_some_iff column c).mp hc
    exact ⟨e, k, he, hk, hcolumn⟩
  · rintro ⟨e, k, he, hk, hcolumn⟩
    obtain ⟨t, hread, ht⟩ := exists_table_of_isLastNamed h he
    exact ⟨t, ht, ((Table.findsLast_findColumn? hread).eq_some_iff column c).mpr ⟨k, hk, hcolumn⟩⟩

/-- Nothing is found where the last table of the name lacks the column, whatever earlier tables of
the name have. -/
theorem lookUp?_eq_none_iff (h : ofElement root = .ok db) {table column : String} :
    db.lookUp? table column = none ↔
      ∀ e, Element.IsLastNamed (root.childrenTagged "table") table e →
        ∀ k ∈ e.childrenTagged "column", k.attribute? "name" ≠ some column := by
  rw [lookUp?, Option.bind_eq_none_iff]
  constructor
  · intro hnone e he
    obtain ⟨t, hread, ht⟩ := exists_table_of_isLastNamed h he
    exact ((Table.findsLast_findColumn? hread).eq_none_iff column).mp (hnone t ht)
  · intro hnone t ht
    obtain ⟨e, he, hread⟩ := ((findsLast_findTable? h).eq_some_iff table t).mp ht
    exact ((Table.findsLast_findColumn? hread).eq_none_iff column).mpr (hnone e he)

end Database

/-- Tables of a document that is loaded are found by name from its end, and so are the columns of a
table. Tables or columns that are added and can be read hide those of their own names and no others.
A column that is looked for in a table is the last one of its name in the last table of that name,
and none if this table has no such column. -/
theorem lookups_shadow_from_the_end {root : Element} {db : Database}
    (h : Database.ofElement root = .ok db) :
    FindsLast Table.ofElement (root.childrenTagged "table") db.findTable? ∧
      (∀ added, (∀ e ∈ added, e.tag = "table" ∧ ∃ t, Table.ofElement e = .ok t) →
        ∃ db', Database.ofElement (root.withChildren added) = .ok db' ∧
          Shadows Table.ofElement added db.findTable? db'.findTable?) ∧
      (∀ e t, Table.ofElement e = .ok t →
        FindsLast Column.ofElement (e.childrenTagged "column") t.findColumn? ∧
          ∀ added, (∀ k ∈ added, k.tag = "column" ∧ ∃ c, Column.ofElement k = .ok c) →
            ∃ t', Table.ofElement (e.withChildren added) = .ok t' ∧
              Shadows Column.ofElement added t.findColumn? t'.findColumn?) ∧
      ∀ table column,
        (∀ c, db.lookUp? table column = some c ↔
          ∃ e k, Element.IsLastNamed (root.childrenTagged "table") table e ∧
            Element.IsLastNamed (e.childrenTagged "column") column k ∧ Column.ofElement k = .ok c) ∧
        (db.lookUp? table column = none ↔
          ∀ e, Element.IsLastNamed (root.childrenTagged "table") table e →
            ∀ k ∈ e.childrenTagged "column", k.attribute? "name" ≠ some column) := by
  refine ⟨Database.findsLast_findTable? h, ?tables,
    fun e t ht => ⟨Table.findsLast_findColumn? ht, ?columns⟩,
    fun table column => ⟨fun c => Database.lookUp?_eq_some_iff h, Database.lookUp?_eq_none_iff h⟩⟩
  case tables =>
    exact fun added hadded => exists_shadowing Database.findsLast_findTable?
      (fun hload htag hitems => ⟨_, Database.ofElement_withChildren hload htag hitems⟩) h hadded
  case columns =>
    exact fun added hadded => exists_shadowing Table.findsLast_findColumn?
      (fun hload htag hitems => ⟨_, Table.ofElement_withChildren hload htag hitems⟩) ht hadded

def plainColumn (name typeName : String) : Element where
  tag := "column"
  attributes := [("name", name), ("type", typeName)]

def plainTable (name : String) (children : List Element) : Element where
  tag := "table"
  attributes := [("name", name)]
  children := children

/-- Two shelves, of which only the first one has hats. -/
def cabinet : Element where
  tag := "database"
  children := [
    plainTable "shelf" [plainColumn "box" "int", plainColumn "hat" "int"],
    { tag := "view", attributes := [("name", "shelf")] },
    plainTable "shelf" [plainColumn "box" "int", plainColumn "box" "varchar"],
    plainTable "rail" [plainColumn "coat" "int"]]

theorem lookups_shadow_from_the_end_cabinet :
    ∃ db db' t, Database.ofElement cabinet = .ok db ∧
      Database.ofElement (cabinet.withChildren [plainTable "rail" [], plainTable "hook" []]) =
        .ok db' ∧
      Table.ofElement ((plainTable "rail" [plainColumn "coat" "int"]).withChildren
        [plainColumn "coat" "varchar"]) =
        .ok t ∧
      db.lookUp? "shelf" "hat" = none ∧
      db.lookUp? "shelf" "box" = some ⟨"box", "varchar", 0, .none, false⟩ ∧
      db'.findTable? "rail" = some ⟨"rail", [], []⟩ ∧
        db'.findTable? "shelf" = db.findTable? "shelf" ∧
      t.findColumn? "coat" = some ⟨"coat", "varchar", 0, .none, false⟩ ∧
        t.findColumn? "hat" = none := by
  have hload : Database.ofElement cabinet = .ok ⟨[
      ⟨"shelf", [⟨"box", "int", 0, .none, false⟩, ⟨"hat", "int", 0, .none, false⟩], []⟩,
      ⟨"shelf", [⟨"box", "int", 0, .none, false⟩, ⟨"box", "varchar", 0, .none, false⟩], []⟩,
      ⟨"rail", [⟨"coat", "int", 0, .none, false⟩], []⟩]⟩ := rfl
  have hrail : Table.ofElement (plainTable "rail" [plainColumn "coat" "int"]) =
      .ok ⟨"rail", [⟨"coat", "int", 0, .none, false⟩], []⟩ := rfl
  obtain ⟨-, htables, hcolumns, hlookUp⟩ := lookups_shadow_from_the_end hload
  obtain ⟨db', hdb', hshadow⟩ := htables [plainTable "rail" [], plainTable "hook" []]
    (by simpa using ⟨⟨rfl, _, rfl⟩, rfl, _, rfl⟩)
  obtain ⟨t, ht, hshadow'⟩ :=
    (hcolumns _ _ hrail).2 [plainColumn "coat" "varchar"] (by simpa using ⟨rfl, _, rfl⟩)
  have hshelf : Element.IsLastNamed (cabinet.childrenTagged "table") "shelf"
      (plainTable "shelf" [plainColumn "box" "int", plainColumn "box" "varchar"]) :=
    ⟨[plainTable "shelf" [plainColumn "box" "int", plainColumn "hat" "int"]],
      [plainTable "rail" [plainColumn "coat" "int"]], rfl, rfl, by decide⟩
  refine ⟨_, db', t, hload, hdb', ht, ?_, ?_, ?_, ?_, ?_, ?_⟩
  · refine (hlookUp "shelf" "hat").2.mpr fun e he => ?_
    rw [he.unique hshelf]
    decide
  · exact ((hlookUp "shelf" "box").1 _).mpr
      ⟨_, plainColumn "box" "varchar", hshelf, ⟨[plainColumn "box" "int"], [], rfl, rfl, by decide⟩,
        rfl⟩
  · obtain ⟨rail, hread, hfound⟩ :=
      hshadow.found "rail" (plainTable "rail" []) ⟨[], [plainTable "hook" []], rfl, rfl, by decide⟩
    cases hread
    exact hfound
  · exact hshadow.kept "shelf" (by decide)
  · obtain ⟨c, hread, hfound⟩ :=
      hshadow'.found "coat" (plainColumn "coat" "varchar") ⟨[], [], rfl, rfl, by decide⟩
    cases hread
    exact hfound
  · rw [hshadow'.kept "hat" (by decide)]
    rfl

end SchemaDoc
