import SchemaDoc.Proofs.Sql.Items
import SchemaDoc.Proofs.Sql.KeyPartition

/-!
# The names of constraints

A key is declared under the name of its constraint, if it has one. The name is read back as any
other name is, with its doubled marks undone. It is written with no mark doubled, and not at all
where keys are declared inside of tables, so it comes back exactly if the dialect adds its keys and
the name holds no quote mark (`Database.constraintNames_survive_iff`). A key without a name is read
without one in every dialect.
-/
namespace SchemaDoc

/-- A foreign key with the name of its constraint, if it has one. -/
structure NamedKey where
  name? : Option String
  entry : KeyEntry
  deriving DecidableEq, Repr

def constraintName? (d : Dialect) (l : List Symbol) : Option String :=
  (word? "CONSTRAINT " l).bind fun l => (name? d l).map (·.1)

/-- The key of a table that a text declares, if it does nothing else. -/
def namedKey? (d : Dialect) (table : String) (l : List Symbol) : Option NamedKey := do
  let rest ← skipNaming? d l
  let (key, rest) ← keyClause? d table rest
  if rest = [] then some ⟨constraintName? d l, key⟩ else none

namespace Dialect

/-- The key that a statement adds, if it adds one and does nothing else. -/
def namedAddition? (d : Dialect) (text : String) : Option NamedKey := do
  let (table, l) ← d.alteration? text
  let l ← word? " ADD " l
  namedKey? d table l

/-- What a statement declares: each item of the table that it creates which does not begin with the
name of a column, or else one key that it adds. None stands for what is not read as a key alone. -/
def declarations (d : Dialect) (text : String) : List (Option NamedKey) :=
  match d.creation? text with
  | some (table, items) => (items.filter fun item => (name? d item).isNone).map (namedKey? d table)
  | none => [d.namedAddition? text]

/-- Whether a key is declared under its name, if it has one. -/
def KeepsName (d : Dialect) (name? : Option String) : Prop :=
  ∀ name, name? = some name → d.inlinesForeignKeys = false ∧ d.quoteMark ∉ name.toList

end Dialect

namespace ForeignKey

def named (k : ForeignKey) : NamedKey :=
  ⟨k.constraint?, k.entry⟩

theorem constraintName?_namingSymbols (d : Dialect) (s? : Option String) (k : ForeignKey) :
    constraintName? d (namingSymbols d s? ++ k.symbols d) = s? := by
  cases s? with
  | none =>
    cases d <;> simp [constraintName?, namingSymbols, symbols, chars, word?, stripChars?,
      name?, quotation?]
  | some s =>
    rw [namingSymbols, List.append_assoc, List.cons_append, constraintName?, word?_chars_append,
      Option.bind_some, name?_name, Option.map_some]

theorem namedKey?_namingSymbols (d : Dialect) (s? : Option String) (k : ForeignKey) :
    namedKey? d k.table (namingSymbols d s? ++ k.symbols d) = some ⟨s?, k.entry⟩ := by
  have hclause : keyClause? d k.table (k.symbols d) = some (k.entry, []) :=
    keyClause?_eq_some_iff.mpr ⟨rfl, (List.append_nil _).symm⟩
  rw [namedKey?, skipNaming?_namingSymbols, constraintName?_namingSymbols]
  simp [hclause]

theorem namedKey?_symbols (d : Dialect) (k : ForeignKey) (table : String) :
    namedKey? d table (k.symbols d) = some ⟨none, k.entryIn table⟩ := by
  have hword : word? "CONSTRAINT " (k.symbols d) = none := by
    simp [symbols, chars, word?, stripChars?]
  have hclause : keyClause? d table (k.symbols d) = some (k.entryIn table, []) :=
    keyClause?_eq_some_iff.mpr ⟨rfl, (List.append_nil _).symm⟩
  simp [namedKey?, skipNaming?, constraintName?, hword, hclause]

theorem namedKey?_of_markedName {d : Dialect} {k : ForeignKey} {s? : Option String}
    (h : k.constraint?.map (markedName d) = s?.map d.quote) :
    namedKey? d k.table (d.symbols (k.constraintText d ++ k.clause d).toList) =
      some ⟨s?, k.entry⟩ := by
  rw [(spells_constraintText_of_markedName h).symbols_append_eq (endsPlain_namingSymbols d s?),
    (k.spells_clause d).symbols_eq]
  exact namedKey?_namingSymbols d s? k

theorem namedKey?_eq_some_iff {d : Dialect} {k : ForeignKey} {r : NamedKey} :
    namedKey? d k.table (d.symbols (k.constraintText d ++ k.clause d).toList) = some r ↔
      ∃ s? : Option String, k.constraint?.map (markedName d) = s?.map d.quote ∧
        r = ⟨s?, k.entry⟩ := by
  constructor
  · intro h
    obtain ⟨rest, hrest, hclause⟩ := Option.bind_eq_some_iff.mp h
    obtain ⟨⟨key, last⟩, hkey, hend⟩ := Option.bind_eq_some_iff.mp hclause
    rw [keyClause?_eq_some_iff] at hkey
    dsimp only at hend
    split_ifs at hend with hlast
    rw [hlast, List.append_nil] at hkey
    rw [hkey.2] at hrest
    obtain ⟨s?, hmarked⟩ := (hasQuotedName_of_skipNaming? hrest).exists_map_eq
    rw [namedKey?_of_markedName hmarked, Option.some.injEq] at h
    exact ⟨s?, hmarked, h.symm⟩
  · rintro ⟨s?, hmarked, rfl⟩
    exact namedKey?_of_markedName hmarked

/-- The name of a key is read back exactly if no mark in it had to be doubled. -/
theorem namedKey?_eq_named_iff {d : Dialect} {k : ForeignKey} :
    namedKey? d k.table (d.symbols (k.constraintText d ++ k.clause d).toList) = some k.named ↔
      ∀ name, k.constraint? = some name → d.quoteMark ∉ name.toList := by
  rw [namedKey?_eq_some_iff, named]
  cases hname : k.constraint? with
  | none => simp
  | some name => simpa [eq_comm] using @markedName_eq_quote_iff d name

end ForeignKey

namespace Column

/-- The key of a column that tells its target in full, with the name of its constraint. -/
def namedKey? (table : String) (c : Column) : Option NamedKey :=
  (c.toldKey? table).map fun entry => ⟨c.key.reference?.bind (·.constraint?), entry⟩

theorem named_foreignKey? (table : String) (c : Column) :
    (c.foreignKey? table).map (·.named) = c.namedKey? table := by
  rw [foreignKey?, keyOutcome?, namedKey?, toldKey?, target?]
  cases c.key.reference? with
  | none => rfl
  | some r => cases h : r.target? <;> simp [h, KeyOutcome.key?, ForeignKey.named, ForeignKey.entry]

end Column

namespace Table

def namedKeys (t : Table) : List NamedKey :=
  t.foreignKeyColumns.filterMap (·.namedKey? t.name)

theorem map_named_foreignKeys (t : Table) : t.foreignKeys.map (·.named) = t.namedKeys := by
  have hkeys : t.namedKeys = t.columns.filterMap (·.namedKey? t.name) := by
    refine t.filterMap_foreignKeyColumns fun c h => ?_
    rw [Column.namedKey?, Column.toldKey?, h, Option.map_none, Option.map_none]
  rw [foreignKeys_eq_filterMap, List.map_filterMap, hkeys]
  congr 1
  funext c
  exact c.named_foreignKey? t.name

theorem declarations_of_writeCreation {d : Dialect} {ifNotExists : Bool} {t : Table} {text : String}
    (h : t.writeCreation d ifNotExists = .ok text) : d.declarations text =
      if d.inlinesForeignKeys then t.namedKeys.map fun key => some ⟨none, key.entry⟩ else [] := by
  obtain ⟨columns, -, htext⟩ := exists_columns_of_writeCreation h
  obtain ⟨definitions, hdefinitions, hcreation⟩ := Statement.creation?_createTable htext
  have hread : t.foreignKeys.map (fun k => namedKey? d t.name (k.symbols d)) =
      t.namedKeys.map fun key => some ⟨none, key.entry⟩ := by
    rw [← map_named_foreignKeys, List.map_map, List.map_inj_left]
    intro k hk
    rw [k.namedKey?_symbols, ← table_of_mem_foreignKeys hk, k.entryIn_table]
    rfl
  rw [Dialect.declarations, hcreation]
  simp only [filter_isNone_name?_items hdefinitions, List.map_map, Function.comp_def]
  split_ifs
  · exact hread
  · rfl

end Table

namespace Statement

theorem creation?_addForeignKey {d : Dialect} {k : ForeignKey} {text : String}
    (h : (addForeignKey k).text d = .ok text) : d.creation? text = none := by
  obtain ⟨front, rfl, hspells, hplain⟩ := text_addForeignKey h
  rw [Dialect.creation?, hspells.symbols_append_eq hplain]
  simp [alterationSymbols, chars, word?, stripChars?]

theorem namedAddition?_addForeignKey {d : Dialect} {k : ForeignKey} {text : String}
    (h : (addForeignKey k).text d = .ok text) : d.namedAddition? text =
      namedKey? d k.table (d.symbols (k.constraintText d ++ k.clause d).toList) := by
  simp only [Dialect.namedAddition?, alteration?_addForeignKey h, Option.bind_eq_bind,
    Option.bind_some, word?_chars_append]

theorem declarations_addForeignKey {d : Dialect} {k : ForeignKey} {text : String}
    (h : (addForeignKey k).write d = .ok text) : d.declarations text =
      [namedKey? d k.table (d.symbols (k.constraintText d ++ k.clause d).toList)] := by
  rw [write_eq_ok_iff] at h
  rw [Dialect.declarations, creation?_addForeignKey h]
  simp only [namedAddition?_addForeignKey h]

end Statement

theorem Dialect.keepsName_iff {d : Dialect} (hd : d.inlinesForeignKeys = false)
    {name? : Option String} :
    d.KeepsName name? ↔ ∀ name, name? = some name → d.quoteMark ∉ name.toList := by
  simp only [KeepsName, hd, true_and]

theorem Dialect.keepsName_iff_eq_none {d : Dialect} (hd : d.inlinesForeignKeys)
    {name? : Option String} : d.KeepsName name? ↔ name? = none := by
  rw [Option.eq_none_iff_forall_ne_some]
  simp [KeepsName, hd]

namespace Database

def namedKeys (db : Database) : List NamedKey :=
  db.tables.flatMap (·.namedKeys)

theorem map_named_foreignKeys (db : Database) :
    (db.tables.flatMap (·.foreignKeys)).map (·.named) = db.namedKeys := by
  rw [namedKeys, List.map_flatMap]
  exact List.flatMap_congr fun t _ => t.map_named_foreignKeys

theorem declarations_of_inlines {db : Database} {d : Dialect} {ifNotExists : Bool}
    {texts : List String} (h : db.ddl d ifNotExists = .ok texts) (hd : d.inlinesForeignKeys) :
    texts.flatMap d.declarations = db.namedKeys.map fun key => some ⟨none, key.entry⟩ := by
  obtain ⟨creations, additions, rfl, hcreations, hadditions⟩ := exists_forall₂_of_ddl h
  rw [if_pos hd, List.forall₂_nil_left_iff] at hadditions
  rw [hadditions, List.append_nil, namedKeys, List.map_flatMap]
  refine flatMap_eq_of_forall₂ hcreations fun t text ht => ?_
  rw [Table.declarations_of_writeCreation ht, if_pos hd]

theorem declarations_of_adds {db : Database} {d : Dialect} {ifNotExists : Bool}
    {texts : List String} (h : db.ddl d ifNotExists = .ok texts)
    (hd : d.inlinesForeignKeys = false) :
    texts.flatMap d.declarations = (db.tables.flatMap (·.foreignKeys)).map fun k =>
      namedKey? d k.table (d.symbols (k.constraintText d ++ k.clause d).toList) := by
  obtain ⟨creations, additions, rfl, hcreations, hadditions⟩ := exists_forall₂_of_ddl h
  rw [hd, if_neg Bool.false_ne_true] at hadditions
  have hnone : creations.flatMap d.declarations = [] := by
    rw [List.flatMap_eq_nil_iff]
    refine forall_mem_of_forall₂ hcreations fun t text ht => ?_
    rw [Table.declarations_of_writeCreation ht, hd, if_neg Bool.false_ne_true]
  rw [List.flatMap_append, hnone, List.nil_append, List.map_eq_flatMap]
  exact flatMap_eq_of_forall₂ hadditions fun _ _ => Statement.declarations_addForeignKey

/-- Each foreign key that is told in full is declared once, in order. It is declared under its name,
or without one if it has none, exactly if it keeps its name; all keys inside of tables lose theirs,
and nothing else. -/
theorem constraintNames_survive_iff {db : Database} {d : Dialect} {ifNotExists : Bool}
    {texts : List String} (h : db.ddl d ifNotExists = .ok texts) :
    List.Forall₂ (fun key read? => read? = some key ↔ d.KeepsName key.name?) db.namedKeys
        (texts.flatMap d.declarations) ∧
      (texts.flatMap d.declarations = db.namedKeys.map some ↔
        ∀ key ∈ db.namedKeys, d.KeepsName key.name?) ∧
      (d.inlinesForeignKeys →
        texts.flatMap d.declarations = db.namedKeys.map fun key => some ⟨none, key.entry⟩) := by
  have hread : List.Forall₂ (fun key read? => read? = some key ↔ d.KeepsName key.name?) db.namedKeys
      (texts.flatMap d.declarations) := by
    cases hd : d.inlinesForeignKeys with
    | true =>
      rw [declarations_of_inlines h hd, List.forall₂_map_right_iff, List.forall₂_same]
      intro key _
      rw [d.keepsName_iff_eq_none hd, eq_comm]
      obtain ⟨name?, entry⟩ := key
      simp
    | false =>
      rw [declarations_of_adds h hd, ← map_named_foreignKeys, List.forall₂_map_left_iff,
        List.forall₂_map_right_iff, List.forall₂_same]
      intro k _
      rw [d.keepsName_iff hd]
      exact ForeignKey.namedKey?_eq_named_iff
  refine ⟨hread, ?_, fun hd => declarations_of_inlines h hd⟩
  rw [← List.forall₂_eq_eq_eq, List.forall₂_map_right_iff]
  generalize texts.flatMap d.declarations = reads at hread ⊢
  generalize db.namedKeys = keys at hread ⊢
  induction hread with
  | nil => simp
  | cons hkey _ ih => simp [hkey, ih]

/-- A key that is named like a clause, one that has no name, and one without a target. -/
def nameTags : Database where
  tables := [
    ⟨"tag", [⟨"id", "int", 0, .primary, true⟩], []⟩,
    ⟨"coat", [
      ⟨"tag", "int", 0, .foreign ⟨some "tag", some "id", some "k\" FOREIGN KEY (\"c\")"⟩, false⟩,
      ⟨"spare", "int", 0, .foreign ⟨some "tag", some "id", none⟩, false⟩,
      ⟨"lost", "int", 0, .foreign ⟨none, some "id", some "lost_tag"⟩, false⟩], []⟩]

theorem constraintNames_survive_nameTags :
    ∃ texts, nameTags.ddl .mysql true = .ok texts ∧
      texts.flatMap Dialect.mysql.declarations =
        [some ⟨some "k\" FOREIGN KEY (\"c\")", ⟨"coat", "tag", "tag", "id"⟩⟩,
          some ⟨none, ⟨"coat", "spare", "tag", "id"⟩⟩] := by
  obtain ⟨texts, h⟩ : ∃ texts, nameTags.ddl .mysql true = .ok texts := ⟨_, rfl⟩
  obtain ⟨-, hsurvive, -⟩ := constraintNames_survive_iff h
  have hkeeps : ∀ key ∈ nameTags.namedKeys, Dialect.mysql.KeepsName key.name? := by
    have hkeys : ∀ key ∈ nameTags.namedKeys, ∀ name ∈ key.name?, '\x60' ∉ name.toList := by decide
    exact fun key hkey name hname => ⟨rfl, hkeys key hkey name hname⟩
  exact ⟨texts, h, hsurvive.mpr hkeeps⟩

/-- A table that refers to itself by a key of some name. -/
def namedKeyTree (name : String) : Element where
  tag := "database"
  children := [
    { tag := "table"
      attributes := [("name", "t")]
      children := [
        { tag := "column"
          attributes := [("name", "c"), ("type", "int"), ("key", "foreign")]
          children := [
            { tag := "fkey_table", text := some "t" },
            { tag := "fkey_column", text := some "c" },
            { tag := "fkey_constraint", text := some name }] }] }]

/-- One dialect leaves a plain name out, and the others do not read back a name with a quote
mark. -/
theorem constraintName_is_lost :
    (∃ db texts, Database.ofElement (namedKeyTree "k") = .ok db ∧
      db.namedKeys = [⟨some "k", ⟨"t", "c", "t", "c"⟩⟩] ∧ db.ddl .sqlite false = .ok texts ∧
      texts.flatMap Dialect.sqlite.declarations = [some ⟨none, ⟨"t", "c", "t", "c"⟩⟩]) ∧
    ∃ db texts, Database.ofElement (namedKeyTree "a\"b") = .ok db ∧
      db.namedKeys = [⟨some "a\"b", ⟨"t", "c", "t", "c"⟩⟩] ∧ db.ddl .postgres false = .ok texts ∧
      texts.flatMap Dialect.postgres.declarations ≠ [some ⟨some "a\"b", ⟨"t", "c", "t", "c"⟩⟩] := by
  let key (name : String) : ForeignKey := ⟨some name, "t", "c", "t", "c"⟩
  let db (name : String) : Database :=
    ⟨[⟨"t", [⟨"c", "int", 0, .foreign ⟨some "t", some "c", some name⟩, false⟩], []⟩]⟩
  obtain ⟨inlined, hinlined⟩ : ∃ texts, (db "k").ddl .sqlite false = .ok texts := ⟨_, rfl⟩
  obtain ⟨added, hadded⟩ : ∃ texts, (db "a\"b").ddl .postgres false = .ok texts := ⟨_, rfl⟩
  refine ⟨⟨db "k", inlined, rfl, rfl, hinlined, declarations_of_inlines hinlined rfl⟩,
    db "a\"b", added, rfl, rfl, hadded, ?_⟩
  rw [declarations_of_adds hadded rfl]
  intro hread
  have hkey :=
    (ForeignKey.namedKey?_eq_named_iff (k := key "a\"b")).mp (List.head_eq_of_cons_eq hread)
  exact hkey "a\"b" rfl (by decide)

end Database

end SchemaDoc
