import SchemaDoc.Proofs.Schema.Telling
import SchemaDoc.Schema.Record

/-!
# Which databases are loaded

Every database whose lengths lie below their bound is loaded from some tree: `Database.toElement`
makes it by hand, with one child for each part of a reference that is told. Put in terms of records,
the values that loading can end with are those in which every column may be left empty, no length is
too great, no column has both kinds of key, and there is a reference exactly for foreign keys
(`DatabaseRecord.isLoaded_iff_isSound`). Names, types, users, actions and the parts of references
are free.
-/
namespace SchemaDoc

namespace Element

/-- The trees that are made by hand, step by step. -/
inductive IsComposed : Element → Prop
  | new (tag : String) : IsComposed { tag }
  | withAttribute {e : Element} (h : IsComposed e) (name value : String) :
      IsComposed (e.withAttribute name value)
  | withText {e : Element} (h : IsComposed e) (text : String) : IsComposed (e.withText text)
  | withChild {e child : Element} (h : IsComposed e) (hchild : IsComposed child) :
      IsComposed (e.withChild child)

def withChildren (e : Element) (children : List Element) : Element :=
  children.foldl withChild e

section

variable (e : Element) (name value : String) (children : List Element)

@[simp] theorem tag_withAttribute : (e.withAttribute name value).tag = e.tag := rfl

@[simp] theorem children_withAttribute : (e.withAttribute name value).children = e.children := rfl

@[simp] theorem tag_withText : (e.withText value).tag = e.tag := rfl

@[simp] theorem text_withText : (e.withText value).text = some value := rfl

theorem withChildren_eq :
    e.withChildren children = { e with children := e.children ++ children } := by
  induction children generalizing e with
  | nil =>
    cases e
    rw [withChildren, List.foldl_nil, List.append_nil]
  | cons child children ih =>
    rw [withChildren, List.foldl_cons, ← withChildren, ih]
    simp [withChild]

@[simp] theorem tag_withChildren : (e.withChildren children).tag = e.tag := by
  rw [withChildren_eq]

@[simp] theorem children_withChildren :
    (e.withChildren children).children = e.children ++ children := by
  rw [withChildren_eq]

@[simp] theorem attribute?_withChildren :
    (e.withChildren children).attribute? name = e.attribute? name := by
  rw [withChildren_eq]
  rfl

end

theorem IsComposed.withChildren {e : Element} {children : List Element} (h : IsComposed e)
    (hchildren : ∀ child ∈ children, IsComposed child) : IsComposed (e.withChildren children) := by
  induction children generalizing e with
  | nil => exact h
  | cons child children ih =>
    rw [List.forall_mem_cons] at hchildren
    exact ih (h.withChild hchildren.1) hchildren.2

/-- A child with a text, where there is a text. -/
def ofText (tag : String) (text? : Option String) : List Element :=
  (text?.map fun text => withText { tag } text).toList

theorem isComposed_of_mem_ofText {tag : String} {text? : Option String} {e : Element}
    (h : e ∈ ofText tag text?) : IsComposed e := by
  cases text? with
  | none => cases h
  | some text =>
    obtain rfl : e = withText { tag } text := List.mem_singleton.mp h
    exact (IsComposed.new tag).withText text

end Element

theorem Text.trimChars_of_no_blank {s : List Char} (h : ∀ c ∈ s, ¬ isBlank c) :
    trimChars s = s := by
  have hfront : ∀ t : List Char, (∀ c ∈ t, ¬ isBlank c) → t.dropWhile isBlank = t := by
    intro t ht
    cases t with
    | nil => rfl
    | cons c t => exact List.dropWhile_cons_of_neg (ht c (by simp))
  rw [trimChars, hfront s h, hfront s.reverse (by simpa using h), List.reverse_reverse]

theorem Text.not_isBlank_of_isDigit {c : Char} (h : c.isDigit) : ¬ isBlank c := by
  obtain ⟨hlow, hhigh⟩ := toNat_of_isDigit h
  simp only [isBlank, Bool.or_eq_true, Bool.and_eq_true, decide_eq_true_eq, beq_iff_eq]
  omega

theorem Column.tellsLength_toString {n : Nat} (h : n < lengthBound) :
    TellsLength (some (toString n)) n := by
  have hdigits : ∀ c ∈ Nat.toDigits 10 n, ¬ Text.isBlank c := fun c hc =>
    Text.not_isBlank_of_isDigit (Nat.isDigit_of_mem_toDigits (by decide) (by decide) hc)
  refine .counted ?_
  rw [Nat.toString_eq_repr, Nat.toList_repr, Text.trimChars_of_no_blank hdigits]
  exact Text.readCount?_eq_some_iff.mp (Text.readCount?_toDigits h)

/-! ### Trees that tell a database -/

def Reference.toElements (r : Reference) : List Element :=
  Element.ofText "fkey_table" r.table? ++ Element.ofText "fkey_column" r.column? ++
    Element.ofText "fkey_constraint" r.constraint?

/-- The word for a key. Where there is none, any other word does. -/
def Key.word : Key → String
  | .none => ""
  | .primary => "primary"
  | .foreign _ => "foreign"

def Key.toElements : Key → List Element
  | .foreign reference => reference.toElements
  | _ => []

def Column.toElement (c : Column) : Element :=
  let bare : Element := { tag := "column" }
  let named := (bare.withAttribute "name" c.name).withAttribute "type" c.typeName
  let sized := (named.withAttribute "length" (toString c.length)).withAttribute "key" c.key.word
  (sized.withAttribute "autoincrement" (if c.autoincrement then "true" else "false")).withChildren
    c.key.toElements

def Permission.toElement (p : Permission) : Element :=
  (Element.withAttribute { tag := "permissions" } "user" p.user).withChildren
    (p.actions.map fun action => Element.withText { tag := "permission" } action)

def Table.toElement (t : Table) : Element :=
  (Element.withAttribute { tag := "table" } "name" t.name).withChildren
    (t.columns.map (·.toElement) ++ t.permissions.map (·.toElement))

def Database.toElement (db : Database) : Element :=
  Element.withChildren { tag := "database" } (db.tables.map (·.toElement))

@[simp] theorem Column.tag_toElement (c : Column) : c.toElement.tag = "column" := by
  simp [toElement]

@[simp] theorem Permission.tag_toElement (p : Permission) : p.toElement.tag = "permissions" := by
  simp [toElement]

@[simp] theorem Table.tag_toElement (t : Table) : t.toElement.tag = "table" := by
  simp [toElement]

theorem Element.filter_tag_map {α : Type} {make : α → Element} {tag : String}
    (htag : ∀ a, (make a).tag = tag) (wanted : String) (l : List α) :
    (l.map make).filter (·.tag = wanted) = if tag = wanted then l.map make else [] := by
  by_cases h : tag = wanted <;> simp [List.filter_map, Function.comp_def, htag, h]

theorem Key.toElement_isToldBy (c : Column) : c.key.IsToldBy c.toElement := by
  obtain ⟨name, typeName, length, key, auto⟩ := c
  cases key with
  | none => simp [IsToldBy, Column.toElement, Element.attribute?_withAttribute, word]
  | primary => simp [IsToldBy, Column.toElement, Element.attribute?_withAttribute, word]
  | foreign reference =>
    obtain ⟨table?, column?, constraint?⟩ := reference
    refine ⟨?_, ?_⟩
    · simp [Column.toElement, Element.attribute?_withAttribute, word]
    · cases table? <;> cases column? <;> cases constraint? <;>
        simp [Column.toElement, toElements, Reference.toElements, Element.lastText?, Element.ofText]

theorem Column.toElement_isToldBy {c : Column} (h : c.length < lengthBound) :
    c.IsToldBy c.toElement where
  name := by simp [toElement, Element.attribute?_withAttribute]
  typeName := by simp [toElement, Element.attribute?_withAttribute]
  length := by simpa [toElement, Element.attribute?_withAttribute] using tellsLength_toString h
  key := Key.toElement_isToldBy c
  autoincrement := by cases hauto : c.autoincrement <;>
    simp [toElement, Element.attribute?_withAttribute, hauto]

theorem Permission.toElement_isToldBy (p : Permission) : p.IsToldBy p.toElement where
  user := by simp [toElement, Element.attribute?_withAttribute]
  actions := by
    have hchildren : p.toElement.childrenTagged "permission" =
        p.actions.map fun action => Element.withText { tag := "permission" } action := by
      rw [toElement, Element.childrenTagged, Element.children_withChildren,
        Element.children_withAttribute, List.nil_append,
        Element.filter_tag_map (fun _ => Element.tag_withText _ _), if_pos rfl]
    rw [hchildren, List.forall₂_map_left_iff, List.forall₂_same]
    exact fun action _ => .inl rfl

theorem Table.childrenTagged_toElement (t : Table) :
    t.toElement.childrenTagged "column" = t.columns.map (·.toElement) ∧
      t.toElement.childrenTagged "permissions" = t.permissions.map (·.toElement) := by
  simp [toElement, Element.childrenTagged, Element.filter_tag_map Column.tag_toElement,
    Element.filter_tag_map Permission.tag_toElement]

theorem Table.toElement_isToldBy {t : Table} (h : ∀ c ∈ t.columns, c.length < Column.lengthBound) :
    t.IsToldBy t.toElement where
  name := by simp [toElement, Element.attribute?_withAttribute]
  columns := by
    rw [t.childrenTagged_toElement.1, List.forall₂_map_left_iff, List.forall₂_same]
    exact fun c hc => Column.toElement_isToldBy (h c hc)
  permissions := by
    rw [t.childrenTagged_toElement.2, List.forall₂_map_left_iff, List.forall₂_same]
    exact fun p _ => p.toElement_isToldBy

/-- The lengths of all columns lie below their bound. -/
def Database.IsBounded (db : Database) : Prop :=
  ∀ t ∈ db.tables, ∀ c ∈ t.columns, c.length < Column.lengthBound

theorem Database.ofElement_toElement {db : Database} (h : db.IsBounded) :
    ofElement db.toElement = .ok db := by
  have hchildren : db.toElement.childrenTagged "table" = db.tables.map (·.toElement) := by
    simp [toElement, Element.childrenTagged, Element.filter_tag_map Table.tag_toElement]
  refine ofElement_eq_ok_iff.mpr ⟨?_⟩
  rw [hchildren, List.forall₂_map_left_iff, List.forall₂_same]
  exact fun t ht => Table.toElement_isToldBy (h t ht)

theorem Key.isComposed_of_mem_toElements {key : Key} {e : Element} (h : e ∈ key.toElements) :
    e.IsComposed := by
  cases key with
  | foreign reference =>
    simp only [toElements, Reference.toElements, List.mem_append] at h
    rcases h with (h | h) | h <;> exact Element.isComposed_of_mem_ofText h
  | _ => cases h

theorem Column.isComposed_toElement (c : Column) : c.toElement.IsComposed :=
  .withChildren (.withAttribute
    (.withAttribute (.withAttribute (.withAttribute (.withAttribute (.new _) _ _) _ _) _ _)
    _ _) _ _) fun _ => Key.isComposed_of_mem_toElements

theorem Permission.isComposed_toElement (p : Permission) : p.toElement.IsComposed := by
  refine .withChildren (.withAttribute (.new _) _ _) (List.forall_mem_map.mpr fun action _ => ?_)
  exact .withText (.new _) action

theorem Table.isComposed_toElement (t : Table) : t.toElement.IsComposed := by
  refine .withChildren (.withAttribute (.new _) _ _) (List.forall_mem_append.mpr ⟨?_, ?_⟩)
  · exact List.forall_mem_map.mpr fun c _ => c.isComposed_toElement
  · exact List.forall_mem_map.mpr fun p _ => p.isComposed_toElement

theorem Database.isComposed_toElement (db : Database) : db.toElement.IsComposed :=
  .withChildren (.new _) (List.forall_mem_map.mpr fun t _ => t.isComposed_toElement)

/-! ### Records that are loaded -/

/-- The values of a column agree with each other, and its length is not too great. -/
structure ColumnRecord.IsSound (c : ColumnRecord) : Prop where
  nullable : c.nullable = true
  length : c.length ≤ 4294967295
  keys : ¬ (c.isPrimaryKey = true ∧ c.isForeignKey = true)
  reference : c.reference?.isSome ↔ c.isForeignKey = true

def DatabaseRecord.IsSound (r : DatabaseRecord) : Prop :=
  ∀ t ∈ r.tables, ∀ c ∈ t.columns, c.IsSound

theorem ColumnRecord.isSound_iff {r : ColumnRecord} :
    r.IsSound ↔ ∃ c : Column, c.length < Column.lengthBound ∧ c.record = r := by
  have hbound : ∀ n, n ≤ 4294967295 ↔ n < Column.lengthBound := fun n => Nat.lt_succ_iff.symm
  constructor
  · obtain ⟨name, typeName, length, nullable, primary, foreign, auto, reference?⟩ := r
    rintro ⟨rfl, hlength, hkeys, hreference⟩
    rw [hbound] at hlength
    cases reference? with
    | some reference =>
      obtain rfl : foreign = true := hreference.mp rfl
      obtain rfl : primary = false := by simpa using hkeys
      exact ⟨⟨name, typeName, length, .foreign reference, auto⟩, hlength, rfl⟩
    | none =>
      obtain rfl : foreign = false := by simpa using hreference
      cases primary with
      | true => exact ⟨⟨name, typeName, length, .primary, auto⟩, hlength, rfl⟩
      | false => exact ⟨⟨name, typeName, length, .none, auto⟩, hlength, rfl⟩
  · rintro ⟨c, hlength, rfl⟩
    refine ⟨rfl, (hbound _).mpr hlength, ?_, Iff.rfl⟩
    rintro ⟨hprimary, hforeign⟩
    have := Column.not_primary_of_foreign hforeign
    simp_all [Column.record]

theorem TableRecord.forall_isSound_iff {r : TableRecord} :
    (∀ c ∈ r.columns, c.IsSound) ↔
      ∃ t : Table, (∀ c ∈ t.columns, c.length < Column.lengthBound) ∧ t.record = r := by
  simp only [ColumnRecord.isSound_iff, ← exists_map_eq_iff]
  constructor
  · rintro ⟨columns, hcolumns, hr⟩
    exact ⟨⟨r.name, columns, r.permissions⟩, hcolumns, by rw [Table.record, hr]⟩
  · rintro ⟨t, ht, rfl⟩
    exact ⟨t.columns, ht, rfl⟩

theorem DatabaseRecord.isSound_iff {r : DatabaseRecord} :
    r.IsSound ↔ ∃ db : Database, db.IsBounded ∧ db.record = r := by
  simp only [IsSound, TableRecord.forall_isSound_iff, ← exists_map_eq_iff]
  constructor
  · rintro ⟨tables, htables, hr⟩
    exact ⟨⟨tables⟩, htables, by rw [Database.record, hr]⟩
  · rintro ⟨db, hdb, rfl⟩
    exact ⟨db.tables, hdb, rfl⟩

theorem Column.length_lt_of_tellsLength {value? : Option String} {n : Nat}
    (h : TellsLength value? n) : n < lengthBound := by
  cases h with
  | absent => decide
  | counted h =>
    obtain ⟨_, _, _, _, _, _, _, hlt⟩ := h
    exact hlt

theorem Database.isBounded_of_ofElement {root : Element} {db : Database}
    (h : ofElement root = .ok db) : db.IsBounded :=
  forall_mem_of_forall₂ (ofElement_eq_ok_iff.mp h).tables fun _ _ ht =>
    forall_mem_of_forall₂ ht.columns fun _ _ hc => Column.length_lt_of_tellsLength hc.length

/-- The records of loaded databases are the sound ones, and each of these is loaded from a tree that
is made by hand. -/
theorem DatabaseRecord.isLoaded_iff_isSound (r : DatabaseRecord) :
    ((∃ root db, Database.ofElement root = .ok db ∧ db.record = r) ↔ r.IsSound) ∧
      ((∃ root db, root.IsComposed ∧ Database.ofElement root = .ok db ∧ db.record = r) ↔
        r.IsSound) := by
  have hsound : ∀ root db, Database.ofElement root = .ok db → db.record = r → r.IsSound :=
    fun root db h hr =>
    isSound_iff.mpr ⟨db, Database.isBounded_of_ofElement h, hr⟩
  have hloaded : r.IsSound → ∃ root db, root.IsComposed ∧ Database.ofElement root = .ok db ∧
      db.record = r := by
    intro h
    obtain ⟨db, hdb, hr⟩ := isSound_iff.mp h
    exact ⟨db.toElement, db, db.isComposed_toElement, Database.ofElement_toElement hdb, hr⟩
  constructor
  · constructor
    · rintro ⟨root, db, h, hr⟩
      exact hsound root db h hr
    · intro h
      obtain ⟨root, db, -, hdb⟩ := hloaded h
      exact ⟨root, db, hdb⟩
  · constructor
    · rintro ⟨root, db, -, h, hr⟩
      exact hsound root db h hr
    · exact hloaded

end SchemaDoc
