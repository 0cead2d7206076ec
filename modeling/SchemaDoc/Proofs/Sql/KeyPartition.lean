import Mathlib.Data.List.TakeWhile
import SchemaDoc.Proofs.Sql.AddedKeys
import SchemaDoc.Proofs.Sql.Outcome

/-!
# What becomes of the foreign keys

A foreign key column whose target is told in full is declared, once; any other is reported as
skipped, and found incomplete when references are checked. So the statements and the reports of a
database share its foreign key columns among them, in their order and alike in each dialect. The
text of a statement may declare more than it is written for, or less, exactly where the name of a
constraint is no quotation between quote marks (`Database.ddl_partitions_keys_iff`).
-/
namespace SchemaDoc

namespace Column

/-- The table and column that a foreign key column refers to, if both are told. -/
def target? (c : Column) : Option (String × String) :=
  c.key.reference?.bind (·.target?)

def toldKey? (table : String) (c : Column) : Option KeyEntry :=
  c.target?.map fun (targetTable, targetColumn) => ⟨table, c.name, targetTable, targetColumn⟩

/-- A foreign key column that does not tell its target in full. -/
def isUntold (c : Column) : Bool :=
  c.isForeignKey && c.target?.isNone

theorem isForeignKey_of_target? {c : Column} (h : c.target?.isSome) : c.isForeignKey := by
  rw [target?] at h
  rw [isForeignKey]
  cases hr : c.key.reference? with
  | none => simp [hr] at h
  | some r => rfl

theorem entryIn_foreignKey? (table : String) (c : Column) :
    (c.foreignKey? table).map (·.entryIn table) = c.toldKey? table := by
  rw [foreignKey?, keyOutcome?, toldKey?, target?]
  cases c.key.reference? with
  | none => rfl
  | some r => cases h : r.target? <;> simp [h, KeyOutcome.key?, ForeignKey.entryIn]

theorem event?_keyOutcome? (table : String) (c : Column) :
    (c.keyOutcome? table).bind (·.event?) =
      if c.isUntold then some (.skippedForeignKey table c.name) else none := by
  rw [keyOutcome?, isUntold, isForeignKey, target?]
  cases c.key.reference? with
  | none => rfl
  | some r => cases h : r.target? <;> simp [h, KeyOutcome.event?]

end Column

/-- The table and column of a foreign key that is found incomplete. -/
def Finding.incomplete? : Finding → Option (String × String)
  | .incomplete table column => some (table, column)
  | .unknownTable _ _ _ => none
  | .unknownColumn _ _ _ _ => none

theorem Database.incomplete?_findingFor? (db : Database) (table column : String) (r : Reference) :
    (db.findingFor? table column r).bind (·.incomplete?) =
      if r.target?.isNone then some (table, column) else none := by
  unfold findingFor?
  split
  next h => simp [h, Finding.incomplete?]
  next targetTable targetColumn h =>
    rw [h]
    split
    next => rfl
    next target =>
      split
      next => rfl
      next => rfl

theorem Database.incomplete?_finding? (db : Database) (table : String) (c : Column) :
    (db.finding? table c).bind (·.incomplete?) = if c.isUntold then some (table, c.name)
      else none := by
  rw [finding?, Column.isUntold, Column.isForeignKey, Column.target?]
  cases c.key with
  | none => rfl
  | primary => rfl
  | foreign r => exact db.incomplete?_findingFor? table c.name r

namespace Table

/-- The keys of a table whose targets are told in full. -/
def toldKeys (t : Table) : List KeyEntry :=
  t.foreignKeyColumns.filterMap (·.toldKey? t.name)

/-- The other foreign key columns of a table, each with the name of the table. -/
def untoldKeys (t : Table) : List (String × String) :=
  (t.foreignKeyColumns.filter (·.target?.isNone)).map fun c => (t.name, c.name)

theorem filterMap_foreignKeyColumns {α : Type} {f : Column → Option α}
    (h : ∀ c, c.target? = none → f c = none) (t : Table) :
    t.foreignKeyColumns.filterMap f = t.columns.filterMap f := by
  rw [foreignKeyColumns, List.filterMap_filter]
  congr 1
  funext c
  split_ifs with hkey
  · rfl
  · rw [h c]
    rw [← Option.not_isSome_iff_eq_none]
    exact fun htarget => hkey (Column.isForeignKey_of_target? htarget)

theorem toldKeys_eq_filterMap (t : Table) : t.toldKeys = t.columns.filterMap (·.toldKey? t.name) :=
  t.filterMap_foreignKeyColumns fun c h => by rw [Column.toldKey?, h, Option.map_none]

theorem map_untoldKeys {α : Type} (t : Table) (f : String × String → α) :
    t.untoldKeys.map f = t.columns.filterMap fun c =>
      if c.isUntold then some (f (t.name, c.name)) else none := by
  rw [untoldKeys, foreignKeyColumns, List.filter_filter, List.map_map, ← List.filterMap_eq_map,
    List.filterMap_filter]
  congr 1
  funext c
  rw [Bool.and_comm]
  rfl

theorem map_entryIn_foreignKeys (t : Table) :
    t.foreignKeys.map (·.entryIn t.name) = t.toldKeys := by
  rw [foreignKeys_eq_filterMap, List.map_filterMap, toldKeys_eq_filterMap]
  congr 1
  funext c
  exact c.entryIn_foreignKey? t.name

theorem table_of_mem_foreignKeys {t : Table} {k : ForeignKey} (h : k ∈ t.foreignKeys) :
    k.table = t.name := by
  rw [foreignKeys_eq_filterMap] at h
  obtain ⟨c, -, hk⟩ := List.mem_filterMap.mp h
  obtain ⟨r, -, -, htable, -⟩ := Column.foreignKey?_eq_some_iff.mp hk
  exact htable

theorem map_entry_foreignKeys (t : Table) : t.foreignKeys.map (·.entry) = t.toldKeys := by
  rw [← map_entryIn_foreignKeys, List.map_inj_left]
  intro k hk
  rw [ForeignKey.entry, ForeignKey.entryIn, table_of_mem_foreignKeys hk]

theorem skippedKeys_eq (t : Table) :
    t.skippedKeys = t.untoldKeys.map fun p => .skippedForeignKey p.1 p.2 := by
  rw [skippedKeys, keyOutcomes, List.filterMap_filterMap, map_untoldKeys]
  congr 1
  funext c
  exact c.event?_keyOutcome? t.name

theorem incomplete?_findings (db : Database) (t : Table) :
    (t.columns.filterMap (db.finding? t.name)).filterMap (·.incomplete?) = t.untoldKeys := by
  rw [List.filterMap_filterMap, ← List.map_id t.untoldKeys, map_untoldKeys]
  congr 1
  funext c
  exact db.incomplete?_finding? t.name c

theorem length_toldKeys_add_length_untoldKeys (t : Table) :
    t.toldKeys.length + t.untoldKeys.length = t.foreignKeyColumns.length := by
  rw [toldKeys, untoldKeys, List.length_map, List.length_filterMap_eq_countP,
    ← List.countP_eq_length_filter, List.length_eq_countP_add_countP (·.target?.isSome)]
  congr 1
  · simp [Column.toldKey?]
  · exact List.countP_congr fun c _ => by simp

end Table

theorem flatMap_eq_of_forall₂ {α β γ : Type} {R : α → β → Prop} {f : α → List γ} {g : β → List γ}
    {l : List α} {m : List β} (h : List.Forall₂ R l m) (hfg : ∀ a b, R a b → g b = f a) :
    m.flatMap g = l.flatMap f := by
  induction h with
  | nil => rfl
  | cons hab _ ih => rw [List.flatMap_cons, List.flatMap_cons, hfg _ _ hab, ih]

namespace Dialect

/-- A statement that creates a table, with its keys where the dialect has them inside of tables. -/
def Creates (d : Dialect) (t : Table) (text : String) : Prop :=
  d.createdTable? text = some t.name ∧
    d.declaredKeys text = if d.inlinesForeignKeys then t.toldKeys else []

/-- A statement that alters a table and creates none. -/
def Alters (d : Dialect) (table text : String) : Prop :=
  d.createdTable? text = none ∧ (d.alteration? text).map (·.1) = some table

/-- A statement that adds one key, and has a clause for this key alone. -/
def Adds (d : Dialect) (k : KeyEntry) (text : String) : Prop :=
  d.addedKey? text = some k ∧ d.declaredKeys text = [k]

end Dialect

theorem Table.creates_of_writeCreation {d : Dialect} {ifNotExists : Bool} {t : Table}
    {text : String} (h : t.writeCreation d ifNotExists = .ok text) : d.Creates t text := by
  obtain ⟨columns, -, htext⟩ := Table.exists_columns_of_writeCreation h
  refine ⟨Statement.createdTable?_createTable htext, ?_⟩
  rw [Statement.declaredKeys_createTable htext, ← t.map_entryIn_foreignKeys]
  split_ifs <;> rfl

namespace Statement

theorem alters_of_write {d : Dialect} {k : ForeignKey} {text : String}
    (h : (addForeignKey k).write d = .ok text) : d.Alters k.table text := by
  rw [write_eq_ok_iff] at h
  exact ⟨createdTable?_addForeignKey h, by rw [alteration?_addForeignKey h, Option.map_some]⟩

theorem adds_iff_of_write {d : Dialect} {k : ForeignKey} {text : String}
    (h : (addForeignKey k).write d = .ok text) : d.Adds k.entry text ↔ k.HasQuotedName d := by
  rw [write_eq_ok_iff] at h
  constructor
  · rintro ⟨hadded, -⟩
    exact ((addedKey?_eq_some_iff h).mp hadded).1
  · intro hname
    exact ⟨(addedKey?_eq_some_iff h).mpr ⟨hname, rfl⟩, declaredKeys_addForeignKey h hname⟩

theorem forall₂_adds_iff {d : Dialect} {keys : List ForeignKey} {texts : List String}
    (h : List.Forall₂ (fun k text => (addForeignKey k).write d = .ok text) keys texts) :
    List.Forall₂ d.Adds (keys.map (·.entry)) texts ↔ ∀ k ∈ keys, k.HasQuotedName d := by
  induction h with
  | nil => simp
  | cons hk _ ih => simp [adds_iff_of_write hk, ih]

end Statement

namespace Database

def toldKeys (db : Database) : List KeyEntry :=
  db.tables.flatMap (·.toldKeys)

def untoldKeys (db : Database) : List (String × String) :=
  db.tables.flatMap (·.untoldKeys)

/-- The keys that are added to tables once these have been created. -/
def laterKeys (d : Dialect) (db : Database) : List KeyEntry :=
  if d.inlinesForeignKeys then [] else db.toldKeys

/-- Whatever is written between quote marks is written as a quotation. -/
def HasQuotedNames (d : Dialect) (db : Database) : Prop :=
  d.inlinesForeignKeys ∨ ∀ k ∈ db.tables.flatMap (·.foreignKeys), k.HasQuotedName d

theorem hasQuotedNames_of_not_mem {db : Database} {d : Dialect}
    (h : ∀ k ∈ db.tables.flatMap (·.foreignKeys), ∀ name ∈ k.constraint?,
      d.quoteMark ∉ name.toList) : db.HasQuotedNames d :=
  .inr fun k hk name hname => ⟨name, ForeignKey.markedName_eq_quote_iff.mpr (h k hk name hname)⟩

/-- A statement for each table, and behind them one for each key that is not declared inside its
table. -/
structure IsWrittenAs (db : Database) (d : Dialect) (creations additions : List String) : Prop where
  creations : List.Forall₂ d.Creates db.tables creations
  alterations : List.Forall₂ (fun k => d.Alters k.table) (db.laterKeys d) additions
  additions_iff : List.Forall₂ d.Adds (db.laterKeys d) additions ↔ db.HasQuotedNames d

theorem map_entry_foreignKeys (db : Database) :
    (db.tables.flatMap (·.foreignKeys)).map (·.entry) = db.toldKeys := by
  rw [toldKeys, List.map_flatMap]
  exact List.flatMap_congr fun t _ => t.map_entry_foreignKeys

theorem isWrittenAs_of_ddl {db : Database} {d : Dialect} {ifNotExists : Bool} {texts : List String}
    (h : db.ddl d ifNotExists = .ok texts) :
    ∃ creations additions, texts = creations ++ additions ∧
      db.IsWrittenAs d creations additions := by
  obtain ⟨creations, additions, rfl, hcreations, hadditions⟩ := exists_forall₂_of_ddl h
  have htables := hcreations.imp fun _ _ => Table.creates_of_writeCreation
  refine ⟨creations, additions, rfl, ?_⟩
  cases hd : d.inlinesForeignKeys with
  | true =>
    have hlater : db.laterKeys d = [] := by rw [laterKeys, hd, if_pos rfl]
    rw [hd, if_pos rfl, List.forall₂_nil_left_iff] at hadditions
    subst hadditions
    exact ⟨htables, by rw [hlater]; exact .nil, by simp [hlater, HasQuotedNames, hd]⟩
  | false =>
    have hlater : db.laterKeys d = (db.tables.flatMap (·.foreignKeys)).map (·.entry) := by
      rw [laterKeys, hd, map_entry_foreignKeys, if_neg Bool.false_ne_true]
    rw [hd, if_neg Bool.false_ne_true] at hadditions
    refine ⟨htables, ?_, ?_⟩
    · rw [hlater, List.forall₂_map_left_iff]
      exact hadditions.imp fun _ _ => Statement.alters_of_write
    · rw [hlater, Statement.forall₂_adds_iff hadditions, HasQuotedNames, hd]
      simp only [Bool.false_eq_true, false_or]

theorem IsWrittenAs.flatMap_declaredKeys {db : Database} {d : Dialect}
    {creations additions : List String} (h : db.IsWrittenAs d creations additions)
    (hnames : db.HasQuotedNames d) :
    (creations ++ additions).flatMap d.declaredKeys = db.toldKeys := by
  have hcreations := flatMap_eq_of_forall₂ h.creations fun _ _ hc => hc.2
  have hadditions := flatMap_eq_of_forall₂ (h.additions_iff.mpr hnames) fun _ _ hk => hk.2
  rw [List.flatMap_append, hcreations, hadditions, toldKeys, laterKeys]
  cases d.inlinesForeignKeys with
  | true => simp
  | false => simp [toldKeys]

theorem IsWrittenAs.length {db : Database} {d : Dialect} {creations additions : List String}
    (h : db.IsWrittenAs d creations additions) :
    (creations ++ additions).length =
      db.tables.length + if d.inlinesForeignKeys then 0 else db.toldKeys.length := by
  rw [List.length_append, ← h.creations.length_eq, ← h.alterations.length_eq, laterKeys]
  split_ifs <;> rfl

theorem ddlEvents_of_ddl {db : Database} {d : Dialect} {ifNotExists : Bool} {texts : List String}
    (h : db.ddl d ifNotExists = .ok texts) :
    db.ddlEvents d = db.untoldKeys.map fun p => .skippedForeignKey p.1 p.2 := by
  have hskipped : db.tables.flatMap (·.skippedKeys) = db.untoldKeys.map fun p =>
      .skippedForeignKey p.1 p.2 := by
    rw [untoldKeys, List.map_flatMap]
    exact List.flatMap_congr fun t _ => t.skippedKeys_eq
  have hfault := db.faultOf_ddl d ifNotExists
  rw [h, faultOf_ok, ← db.faultOf_ddl d false, eq_comm, faultOf_eq_none_iff] at hfault
  obtain ⟨sameTexts, hsame⟩ := hfault
  rw [← hskipped, ddlEvents]
  split_ifs
  · obtain ⟨statements, hstatements, -⟩ := ddl_eq_ok_iff.mp hsame
    obtain ⟨creations, hcreations, -⟩ := statements_eq_ok_iff.mp hstatements
    have hall : ∀ t ∈ db.tables, (t.creation d false).isOk := by
      refine (forall_mem_iff_of_mapM hcreations (q := fun _ => True) fun t s hs => ?_).mp
        fun _ _ => trivial
      simp [hs, Except.isOk, Except.toBool]
    rw [List.takeWhile_eq_self_iff.mpr hall]
  · rw [hsame]

theorem filterMap_incomplete?_danglingReferences (db : Database) :
    db.danglingReferences.filterMap (·.incomplete?) = db.untoldKeys := by
  rw [danglingReferences, List.filterMap_flatMap, untoldKeys]
  exact List.flatMap_congr fun t _ => t.incomplete?_findings db

theorem length_toldKeys_add_length_untoldKeys (db : Database) :
    db.toldKeys.length + db.untoldKeys.length = db.keyColumns.length := by
  rw [toldKeys, untoldKeys, keyColumns]
  induction db.tables with
  | nil => rfl
  | cons t tables ih =>
    have ht := t.length_toldKeys_add_length_untoldKeys
    simp only [List.flatMap_cons, List.length_append, List.length_map]
    omega

/-- Each foreign key column whose target is told in full has a statement or a place in one, in order
and in every dialect, and the other ones are reported as skipped and are those that are found
incomplete. The clauses in the statements are those of the former, one for each, exactly if the
names of constraints are written as quotations. -/
theorem ddl_partitions_keys_iff {db : Database} {d : Dialect} {ifNotExists : Bool}
    {texts : List String} (h : db.ddl d ifNotExists = .ok texts) :
    (∃ creations additions, texts = creations ++ additions ∧
        List.Forall₂ d.Creates db.tables creations ∧
        List.Forall₂ (fun k => d.Alters k.table) (db.laterKeys d) additions ∧
        (List.Forall₂ d.Adds (db.laterKeys d) additions ∧
          texts.flatMap d.declaredKeys = db.toldKeys ↔
          db.HasQuotedNames d)) ∧
      db.ddlEvents d = db.untoldKeys.map (fun p => .skippedForeignKey p.1 p.2) ∧
      db.danglingReferences.filterMap (·.incomplete?) = db.untoldKeys ∧
      db.toldKeys.length + (db.ddlEvents d).length = db.keyColumns.length ∧
      texts.length = db.tables.length + if d.inlinesForeignKeys then 0 else db.toldKeys.length := by
  obtain ⟨creations, additions, rfl, hwritten⟩ := isWrittenAs_of_ddl h
  refine ⟨⟨creations, additions, rfl, hwritten.creations, hwritten.alterations, ?_⟩,
    ddlEvents_of_ddl h, db.filterMap_incomplete?_danglingReferences, ?_, hwritten.length⟩
  · constructor
    · rintro ⟨hadditions, -⟩
      exact hwritten.additions_iff.mp hadditions
    · intro hnames
      exact ⟨hwritten.additions_iff.mpr hnames, hwritten.flatMap_declaredKeys hnames⟩
  · rw [ddlEvents_of_ddl h, List.length_map]
    exact db.length_toldKeys_add_length_untoldKeys

/-- Keys of all kinds in two tables of one name. A column is named like a clause. -/
def looseEnds : Database where
  tables := [
    ⟨"pen", [⟨"id", "int", 0, .primary, true⟩], []⟩,
    ⟨"cap", [
      ⟨"pen", "int", 0, .foreign ⟨some "pen", none, none⟩, false⟩,
      ⟨"pen", "int", 0, .foreign ⟨some "pen", some "id", some "pen_of_cap"⟩, false⟩,
      ⟨"FOREIGN KEY (\"a\") REFERENCES \"b\" (\"c\")", "int", 0,
        .foreign ⟨some "lost", some "id", none⟩, false⟩],
      []⟩,
    ⟨"cap", [], []⟩]

theorem ddl_partitions_keys_looseEnds :
    ∃ texts, looseEnds.ddl .postgres true = .ok texts ∧
      texts.flatMap Dialect.postgres.declaredKeys = [⟨"cap", "pen", "pen", "id"⟩,
        ⟨"cap", "FOREIGN KEY (\"a\") REFERENCES \"b\" (\"c\")", "lost", "id"⟩] ∧
      looseEnds.ddlEvents .postgres = [.skippedForeignKey "cap" "pen"] ∧ texts.length = 5 := by
  obtain ⟨texts, h⟩ : ∃ texts, looseEnds.ddl .postgres true = .ok texts := ⟨_, rfl⟩
  obtain ⟨⟨_, _, _, _, _, hkeys⟩, hevents, -, -, hlength⟩ := ddl_partitions_keys_iff h
  have hnames : looseEnds.HasQuotedNames .postgres := hasQuotedNames_of_not_mem (by decide)
  exact ⟨texts, h, (hkeys.mpr hnames).2, hevents, hlength⟩

/-- A name that ends the quotation around it and begins a clause. -/
def strayName : String :=
  "k\" FOREIGN KEY (\"c\") REFERENCES \"u\" (\"c\"), ADD CONSTRAINT \"z"

/-- The one key that a document tells is declared with another one beside it. -/
theorem constraintName_declares_key :
    ∃ db, Database.ofElement
          { tag := "database"
            children := [
              { tag := "table"
                attributes := [("name", "t")]
                children := [
                  { tag := "column"
                    attributes := [("name", "c"), ("type", "int"), ("key", "foreign")]
                    children := [
                      { tag := "fkey_table", text := some "t" },
                      { tag := "fkey_column", text := some "c" },
                      { tag := "fkey_constraint", text := some strayName }] }] }] } = .ok db ∧
      ∃ creation addition, db.ddl .postgres false = .ok [creation, addition] ∧
        db.toldKeys = [⟨"t", "c", "t", "c"⟩] ∧
        Dialect.postgres.declaredKeys addition = [⟨"t", "c", "u", "c"⟩, ⟨"t", "c", "t", "c"⟩] ∧
        Dialect.postgres.addedKey? addition = none := by
  let stray : ForeignKey := ⟨none, "t", "c", "u", "c"⟩
  let told : ForeignKey := ⟨none, "t", "c", "t", "c"⟩
  -- the symbols that are read from the second statement
  let l := Statement.alterationSymbols .postgres "t" ++
      (ForeignKey.namingSymbols .postgres (some "k") ++
    (stray.symbols .postgres ++ (chars ", ADD " ++ (ForeignKey.namingSymbols .postgres (some "z") ++
      told.symbols .postgres))))
  let addition :=
    "ALTER TABLE \"t\" ADD CONSTRAINT \"k\" FOREIGN KEY (\"c\") REFERENCES \"u\" (\"c\"), " ++
      "ADD CONSTRAINT \"z\" FOREIGN KEY (\"c\") REFERENCES \"t\" (\"c\")"
  have hspells : Dialect.postgres.Spells l addition :=
    ⟨by decide +kernel, ⟨by decide +kernel, by decide +kernel⟩⟩
  refine ⟨⟨[⟨"t", [⟨"c", "int", 0, .foreign ⟨some "t", some "c", some strayName⟩, false⟩], []⟩]⟩,
    rfl, _, addition, rfl, rfl, ?_, ?_⟩
  · unfold Dialect.declaredKeys Dialect.createdTable? Dialect.alteration?
    rw [hspells.symbols_eq]
    decide +kernel
  · unfold Dialect.addedKey? Dialect.alteration?
    rw [hspells.symbols_eq]
    decide +kernel

end Database

end SchemaDoc
