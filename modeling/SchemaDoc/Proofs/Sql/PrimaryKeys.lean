import SchemaDoc.Proofs.Sql.Items
import SchemaDoc.Proofs.Sql.KeyPartition

/-!
# Primary keys in a statement

A table has one primary key, of one column or of several. In the statement that creates it each
column that is told to be primary has a key of its own, so the statement has the key of its table
exactly if there is at most one such column (`Table.primaryKeys_agree_iff`); with more of them it
has more than one key.
-/
namespace SchemaDoc

def listedNames? (d : Dialect) : List Symbol → Option (List String)
  | .quoted mark s :: .char ')' :: _ => if mark = d.quoteMark then some [String.ofList s] else none
  | .quoted mark s :: .char ',' :: .char ' ' :: l =>
    if mark = d.quoteMark then (listedNames? d l).map (String.ofList s :: ·) else none
  | _ => none

/-- The columns of each primary key that an item declares: those that are listed behind the words
for it, or else the column that the item is for. -/
def primaryKeyClauses (d : Dialect) (column? : Option String) : List Symbol → List (List String)
  | [] => []
  | x :: l =>
    match word? "PRIMARY KEY" (x :: l) with
    | some rest =>
      ((word? " (" rest).bind (listedNames? d)).getD column?.toList :: primaryKeyClauses d column? l
    | none => primaryKeyClauses d column? l

/-- The primary keys that a statement declares for the table that it creates. -/
def Dialect.primaryKeys? (d : Dialect) (text : String) : Option (List (List String)) :=
  (d.creation? text).map fun creation =>
    creation.2.flatMap fun item => primaryKeyClauses d ((name? d item).map (·.1)) item

theorem primaryKeyClauses_append_of_not_mem {d : Dialect} {column? : Option String}
    {l : List Symbol} (h : .char 'P' ∉ l) (m : List Symbol) :
    primaryKeyClauses d column? (l ++ m) = primaryKeyClauses d column? m := by
  induction l with
  | nil => rfl
  | cons x l ih =>
    rw [List.mem_cons, not_or] at h
    have hword : word? "PRIMARY KEY" (x :: (l ++ m)) = none := by
      cases x with
      | quoted mark s => rfl
      | char c =>
        have hc : 'P' ≠ c := fun heq => h.1 (congrArg Symbol.char heq)
        simp [word?, stripChars?, hc]
    rw [List.cons_append, primaryKeyClauses, hword]
    exact ih h.2

theorem primaryKeyClauses_of_not_mem {d : Dialect} {column? : Option String} {l : List Symbol}
    (h : .char 'P' ∉ l) : primaryKeyClauses d column? l = [] := by
  simpa [primaryKeyClauses] using primaryKeyClauses_append_of_not_mem h []

theorem char_mem_chars_iff {c : Char} {w : String} : .char c ∈ chars w ↔ c ∈ w.toList := by
  simp [chars]

theorem primaryKeyClauses_primaryKey {d : Dialect} {column? : Option String} {l : List Symbol}
    (hl : .char 'P' ∉ l) (hlist : word? " (" l = none) :
    primaryKeyClauses d column? (chars "PRIMARY KEY" ++ l) = [column?.toList] := by
  have hwords : chars "PRIMARY KEY" ++ l = .char 'P' :: (chars "RIMARY KEY" ++ l) := rfl
  have hrest : .char 'P' ∉ chars "RIMARY KEY" ++ l := by
    rw [List.mem_append, not_or, char_mem_chars_iff]
    exact ⟨by decide, hl⟩
  have hword : word? "PRIMARY KEY" (.char 'P' :: (chars "RIMARY KEY" ++ l)) = some l :=
    word?_chars_append "PRIMARY KEY" l
  rw [hwords, primaryKeyClauses, hword, primaryKeyClauses_of_not_mem hrest]
  simp [hlist]

namespace ColumnDefinition

theorem not_mem_autoincrementText (d : Dialect) (c : ColumnDefinition) :
    .char 'P' ∉ chars (c.autoincrementText d) ∧
      word? " (" (chars (c.autoincrementText d)) = none := by
  rw [char_mem_chars_iff]
  cases d <;> rw [autoincrementText.eq_def] <;> split_ifs <;> decide

/-- A column declares the primary key that it is, and no other. -/
theorem IsSpelledFrom.primaryKeyClauses {d : Dialect} {c : ColumnDefinition} {item : List Symbol}
    (h : c.IsSpelledFrom d item) :
    primaryKeyClauses d ((name? d item).map (·.1)) item =
      if c.isPrimaryKey then [[c.name]] else [] := by
  obtain ⟨type, htype, rfl⟩ := h
  have hauto := c.not_mem_autoincrementText d
  have htypeChars : 'P' ∉ type.toList :=
    not_mem_of_all_isTypeCharacter (all_isTypeCharacter_typeText htype) (by decide)
  have hfront : .char 'P' ∉ .name d c.name :: (chars " " ++ chars type) := by
    simp only [List.mem_cons, List.mem_append, char_mem_chars_iff, not_or]
    exact ⟨Symbol.noConfusion, by decide, htypeChars⟩
  have hitem : .name d c.name :: chars (c.traits d type) =
    (.name d c.name :: (chars " " ++ chars type)) ++
      (chars (if c.isPrimaryKey then " PRIMARY KEY" else "") ++ chars (c.autoincrementText d)) := by
    simp only [traits, chars_append, List.cons_append, List.append_assoc]
  rw [name?_name, hitem, primaryKeyClauses_append_of_not_mem hfront]
  split_ifs with hkey
  · have hblank : .char 'P' ∉ chars " " := by decide
    have hwords : chars " PRIMARY KEY" = chars " " ++ chars "PRIMARY KEY" :=
      chars_append " " "PRIMARY KEY"
    rw [hwords, List.append_assoc, primaryKeyClauses_append_of_not_mem hblank,
      primaryKeyClauses_primaryKey hauto.1 hauto.2]
    rfl
  · exact primaryKeyClauses_of_not_mem hauto.1

end ColumnDefinition

theorem ForeignKey.not_mem_symbols (d : Dialect) (k : ForeignKey) : .char 'P' ∉ k.symbols d := by
  simp only [symbols, Symbol.name, List.mem_append, List.mem_cons, char_mem_chars_iff,
    reduceCtorEq, false_or, not_or]
  decide

namespace Table

theorem primaryKeys?_of_writeCreation {d : Dialect} {ifNotExists : Bool} {t : Table} {text : String}
    (h : t.writeCreation d ifNotExists = .ok text) :
    d.primaryKeys? text = some (t.primaryKeyColumns.map fun c => [c.name]) := by
  obtain ⟨columns, hcolumns, htext⟩ := exists_columns_of_writeCreation h
  obtain ⟨definitions, hdefinitions, hcreation⟩ := Statement.creation?_createTable htext
  have hread := flatMap_eq_of_forall₂ hdefinitions fun _ _ hitem => hitem.primaryKeyClauses
  have hwritten : columns.flatMap (fun e => if e.isPrimaryKey then [[e.name]] else []) =
      t.columns.flatMap fun c => if c.isPrimaryKey then [[c.name]] else [] := by
    refine flatMap_eq_of_forall₂ hcolumns fun c e he => ?_
    rw [(Column.of_definition he).1, (Column.of_definition he).2]
  have hprimary : (t.columns.flatMap fun c => if c.isPrimaryKey then [[c.name]] else []) =
      t.primaryKeyColumns.map fun c => [c.name] := by
    rw [primaryKeyColumns, ← List.filterMap_eq_map, List.filterMap_filter,
      List.filterMap_eq_flatMap_toList]
    congr 1
    funext c
    split_ifs <;> rfl
  have hkeys : ∀ keys : List ForeignKey, (keys.map (·.symbols d)).flatMap
      (fun item => primaryKeyClauses d ((name? d item).map (·.1)) item) = [] := by
    intro keys
    rw [List.flatMap_eq_nil_iff, List.forall_mem_map]
    exact fun k _ => primaryKeyClauses_of_not_mem (k.not_mem_symbols d)
  rw [Dialect.primaryKeys?, hcreation, Option.map_some, List.flatMap_append, hread, hwritten,
    hprimary, hkeys, List.append_nil]

/-- The statement that creates a table has at most one primary key, made of the primary columns of
the table, exactly if there is at most one such column. -/
theorem primaryKeys_agree_iff {d : Dialect} {ifNotExists : Bool} {t : Table} {text : String}
    (h : t.writeCreation d ifNotExists = .ok text) :
    ∃ keys, d.primaryKeys? text = some keys ∧ keys = t.primaryKeyColumns.map (fun c => [c.name]) ∧
      (keys.length ≤ 1 ∧ (∀ key ∈ keys, key = t.primaryKeyColumns.map (·.name)) ↔
        t.primaryKeyColumns.length ≤ 1) := by
  refine ⟨_, primaryKeys?_of_writeCreation h, rfl, ?_⟩
  rw [List.length_map]
  constructor
  · exact And.left
  · intro hone
    refine ⟨hone, List.forall_mem_map.mpr fun c hc => ?_⟩
    cases hcolumns : t.primaryKeyColumns with
    | nil => simp [hcolumns] at hc
    | cons first rest =>
      rw [hcolumns, List.length_cons] at hone
      have hrest : rest = [] := List.eq_nil_of_length_eq_zero (by omega)
      rw [hcolumns, hrest, List.mem_singleton] at hc
      rw [hrest, hc]
      rfl

/-- A table with one primary column, and names that look like keys. -/
def keyRing : Table where
  name := "PRIMARY KEY"
  columns := [
    ⟨"a\", PRIMARY KEY (\"b", "varchar", 8, .none, false⟩,
    ⟨"id", "int", 0, .primary, true⟩,
    ⟨"owner", "int", 0, .foreign ⟨some "u", some " PRIMARY KEY", none⟩, false⟩]
  permissions := []

theorem primaryKeys_agree_keyRing :
    ∃ text, keyRing.writeCreation .sqlite true = .ok text ∧
      Dialect.sqlite.primaryKeys? text = some [keyRing.primaryKeyColumns.map (·.name)] := by
  obtain ⟨text, h⟩ : ∃ text, keyRing.writeCreation .sqlite true = .ok text := ⟨_, rfl⟩
  obtain ⟨keys, hread, hkeys, -⟩ := primaryKeys_agree_iff h
  refine ⟨text, h, ?_⟩
  rw [hread, hkeys]
  rfl

end Table

/-- Two columns of a table are told to be primary: each has a key of its own, and no key has
both. -/
theorem Database.twoPrimaryColumns_have_two_keys :
    ∃ db text, Database.ofElement
          { tag := "database"
            children := [
              { tag := "table"
                attributes := [("name", "t")]
                children := [
                  { tag := "column",
                    attributes := [("name", "a"), ("type", "int"), ("key", "primary")] },
                  { tag := "column",
                    attributes := [("name", "b"), ("type", "int"), ("key", "primary")] }] }] } =
        .ok db ∧
      db.tables.map (·.primaryKeyColumns.map (·.name)) = [["a", "b"]] ∧
        db.ddl .postgres false = .ok [text] ∧
      text = "CREATE TABLE \"t\" ( \"a\" integer PRIMARY KEY, \"b\" integer PRIMARY KEY )" ∧
      Dialect.postgres.primaryKeys? text = some [["a"], ["b"]] := by
  let t : Table := ⟨"t", [⟨"a", "int", 0, .primary, false⟩, ⟨"b", "int", 0, .primary, false⟩], []⟩
  let text := "CREATE TABLE \"t\" ( \"a\" integer PRIMARY KEY, \"b\" integer PRIMARY KEY )"
  have h : t.writeCreation .postgres false = .ok text := by decide +kernel
  have hddl : Database.ddl .postgres false ⟨[t]⟩ = .ok [text] := by
    rw [Database.ddl, List.mapM_cons, h]
    rfl
  exact ⟨⟨[t]⟩, text, rfl, rfl, hddl, rfl, Table.primaryKeys?_of_writeCreation h⟩

end SchemaDoc
