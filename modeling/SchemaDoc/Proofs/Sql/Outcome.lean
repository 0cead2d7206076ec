import SchemaDoc.Sql.Ddl
import SchemaDoc.Proofs.Traversal

/-!
# How writing a database ends

The tables are written one after another, and the first one that has a fault ends the writing
(`Database.faultOf_ddl`). A table has a fault where a column is of an unknown type; PostgreSQL has a
second kind, texts that should count up by themselves. Away from these the three dialects end alike.
-/
namespace SchemaDoc

namespace Column

def hasKnownType (c : Column) : Bool :=
  c.typeName == "int" || c.typeName == "varchar"

/-- A text that should count up by itself. -/
def isSerialText (c : Column) : Bool :=
  c.typeName == "varchar" && c.autoincrement

theorem columnType_of_known {c : Column} (h : c.hasKnownType) :
    c.columnType = .ok (if c.typeName = "varchar" then .varchar c.length else .int) := by
  simp only [hasKnownType, Bool.or_eq_true, beq_iff_eq] at h
  rcases h with h | h <;> simp [columnType, ColumnType.ofWord, h]

theorem columnType_of_unknown {c : Column} (h : c.hasKnownType = false) :
    c.columnType = .error ⟨c.typeName⟩ := by
  simp only [hasKnownType, Bool.or_eq_false_iff, beq_eq_false_iff_ne] at h
  exact ColumnType.ofWord_eq_error_iff.mpr ⟨h.1, h.2, rfl⟩

theorem faultOf_definition (c : Column) :
    faultOf c.definition = if c.hasKnownType then none else some ⟨c.typeName⟩ := by
  cases h : c.hasKnownType with
  | true => simp [definition, columnType_of_known h, bind, Except.bind, pure, Except.pure]
  | false => simp [definition, columnType_of_unknown h, bind, Except.bind]

/-- Only PostgreSQL cannot write a column, and only a text that should count up by itself. -/
theorem faultOf_text (d : Dialect) {c : Column} {e : ColumnDefinition} (h : c.definition = .ok e) :
    faultOf (e.text d) = if d = .postgres ∧ c.isSerialText then some ⟨c.length⟩ else none := by
  cases hk : c.hasKnownType with
  | false => simp [definition, columnType_of_unknown hk, bind, Except.bind] at h
  | true =>
    simp only [definition, columnType_of_known hk, bind, Except.bind, pure, Except.pure] at h
    cases h
    by_cases hd : d = .postgres
    · subst d
      by_cases hv : c.typeName = "varchar" <;> cases ha : c.autoincrement <;>
        simp [ColumnDefinition.text, ColumnDefinition.typeText, isSerialText, hv, ha,
          bind, Except.bind, pure, Except.pure]
    · simp [ColumnDefinition.text, ColumnDefinition.typeText, hd, bind, Except.bind,
        pure, Except.pure]

end Column

theorem findSome?_ite {α β : Type} (p : α → Bool) (f : α → β) (l : List α) :
    (l.findSome? fun a => if p a then some (f a) else none) = (l.find? p).map f := by
  induction l with
  | nil => rfl
  | cons a l ih => cases h : p a <;> simp [h, ih]

theorem findSome?_eq_find?_bind {α β : Type} (f : α → Option β) (l : List α) :
    l.findSome? f = (l.find? fun a => (f a).isSome).bind f := by
  induction l with
  | nil => rfl
  | cons a l ih => cases h : f a <;> simp [h, ih]

theorem findSome?_of_forall₂ {α β γ : Type} {R : α → β → Prop} {f : α → Option γ} {g : β → Option γ}
    {l : List α} {m : List β} (h : List.Forall₂ R l m) (hfg : ∀ a b, R a b → f a = g b) :
    l.findSome? f = m.findSome? g := by
  induction h with
  | nil => rfl
  | cons hab _ ih => rw [List.findSome?_cons, List.findSome?_cons, hfg _ _ hab, ih]

namespace Table

def hasKnownTypes (t : Table) : Bool :=
  t.columns.all (·.hasKnownType)

def typeFault? (t : Table) : Option DdlFault :=
  (t.columns.find? (!·.hasKnownType)).map fun c => .unsupportedType t.name ⟨c.typeName⟩

/-- The fault of the first text that should count up by itself. -/
def serialFault? (t : Table) : Option DdlFault :=
  (t.columns.find? (·.isSerialText)).map fun c => .unwritable ⟨c.length⟩

/-- The fault that a table has in a dialect. Types are looked at before anything is written. -/
def writeFault? (d : Dialect) (t : Table) : Option DdlFault :=
  t.typeFault?.or (if d = .postgres then t.serialFault? else none)

theorem typeFault?_eq_none_iff {t : Table} : t.typeFault? = none ↔ t.hasKnownTypes := by
  simp [typeFault?, hasKnownTypes]

theorem serialFault?_eq_none_iff {t : Table} :
    t.serialFault? = none ↔ ∀ c ∈ t.columns, c.isSerialText = false := by
  simp [serialFault?]

theorem faultOf_definitions (t : Table) :
    (faultOf (t.columns.mapM (·.definition))).map (.unsupportedType t.name) = t.typeFault? := by
  have hc : (fun c : Column => faultOf c.definition) =
      fun c => if !c.hasKnownType then some ⟨c.typeName⟩ else none := by
    funext c
    cases h : c.hasKnownType <;> simp [Column.faultOf_definition, h]
  rw [faultOf_mapM, hc, findSome?_ite, Option.map_map]
  rfl

theorem faultOf_definition_texts (d : Dialect) {t : Table} {columns : List ColumnDefinition}
    (h : t.columns.mapM (·.definition) = .ok columns) :
    (faultOf (columns.mapM (·.text d))).map DdlFault.unwritable =
      if d = .postgres then t.serialFault? else none := by
  have hf : t.columns.findSome?
        (fun c => if d = .postgres ∧ c.isSerialText then some ⟨c.length⟩ else none) =
      columns.findSome? fun e => faultOf (e.text d) :=
    findSome?_of_forall₂ (mapM_eq_ok_iff.mp h) fun _ _ hc => (Column.faultOf_text d hc).symm
  rw [faultOf_mapM, ← hf]
  by_cases hd : d = .postgres
  · simp only [hd, true_and, if_true, findSome?_ite, Option.map_map, serialFault?]
    rfl
  · simp [hd]

theorem faultOf_writeCreation (d : Dialect) (ifNotExists : Bool) (t : Table) :
    faultOf (t.writeCreation d ifNotExists) = t.writeFault? d := by
  have hf := faultOf_definitions t
  unfold writeCreation creation writeFault?
  cases hc : t.columns.mapM (·.definition) with
  | error type =>
    rw [hc] at hf
    rw [← hf]
    rfl
  | ok columns =>
    rw [hc] at hf
    rw [← hf, ← faultOf_definition_texts d hc]
    simp only [bind, Except.bind, Statement.write, Statement.text]
    cases columns.mapM (·.text d) <;> rfl

end Table

namespace Database

theorem faultOf_additions (d : Dialect) (db : Database) :
    faultOf ((db.tables.flatMap (·.additions d)).mapM (·.write d)) = none := by
  rw [faultOf_mapM, List.findSome?_eq_none_iff]
  intro s hs
  obtain ⟨t, -, ht⟩ := List.mem_flatMap.mp hs
  rw [Table.additions] at ht
  split_ifs at ht
  · cases ht
  · obtain ⟨k, -, rfl⟩ := List.mem_map.mp ht
    rfl

theorem faultOf_ddl (d : Dialect) (ifNotExists : Bool) (db : Database) :
    faultOf (db.ddl d ifNotExists) = db.tables.findSome? (·.writeFault? d) := by
  have ht : (fun t : Table => t.writeFault? d) = fun t => faultOf (t.writeCreation d ifNotExists) :=
    funext fun t => (t.faultOf_writeCreation d ifNotExists).symm
  obtain ⟨additions, ha⟩ := faultOf_eq_none_iff.mp (db.faultOf_additions d)
  rw [ht, ← faultOf_mapM]
  rw [ddl]
  cases db.tables.mapM (·.writeCreation d ifNotExists) with
  | error e => rfl
  | ok creations => simp [bind, Except.bind, ha, pure, Except.pure]

end Database

/-- A column that its table cannot be written with. -/
def Column.isFaulty (d : Dialect) (c : Column) : Bool :=
  !c.hasKnownType || (d = .postgres && c.isSerialText)

namespace Table

def isFaulty (d : Dialect) (t : Table) : Bool :=
  t.columns.any (·.isFaulty d)

theorem isFaulty_eq_false_iff {d : Dialect} {t : Table} :
    t.isFaulty d = false ↔
      t.hasKnownTypes ∧ (d = .postgres → ∀ c ∈ t.columns, c.isSerialText = false) := by
  simp only [isFaulty, Column.isFaulty, hasKnownTypes, List.any_eq_false, List.all_eq_true,
    Bool.or_eq_true, Bool.and_eq_true, Bool.not_eq_true', decide_eq_true_eq, not_or, not_and,
    Bool.not_eq_true, Bool.not_eq_false]
  grind

theorem isSome_writeFault? (d : Dialect) (t : Table) : (t.writeFault? d).isSome = t.isFaulty d := by
  rw [← Bool.not_inj_iff, Option.not_isSome, Bool.eq_iff_iff, Option.isNone_iff_eq_none,
    Bool.not_eq_true', isFaulty_eq_false_iff, writeFault?, Option.or_eq_none_iff,
    typeFault?_eq_none_iff]
  apply and_congr_right'
  by_cases hd : d = .postgres <;> simp [hd, serialFault?_eq_none_iff]

end Table

namespace Database

/-- Writing ends with the fault of the first faulty table. -/
theorem faultOf_ddl_eq_find? (d : Dialect) (ifNotExists : Bool) (db : Database) :
    faultOf (db.ddl d ifNotExists) = (db.tables.find? (·.isFaulty d)).bind (·.writeFault? d) := by
  rw [faultOf_ddl, findSome?_eq_find?_bind]
  simp only [Table.isSome_writeFault?]

/-- The columns of all tables, each with the name of its table. -/
def namedColumns (db : Database) : List (String × Column) :=
  db.tables.flatMap fun t => t.columns.map fun c => (t.name, c)

theorem findSome?_typeFault? (db : Database) :
    db.tables.findSome? (·.typeFault?) =
      (db.namedColumns.find? fun p => !p.2.hasKnownType).map fun p =>
        .unsupportedType p.1 ⟨p.2.typeName⟩ := by
  rw [namedColumns, List.find?_flatMap, List.map_findSome?]
  congr 1
  funext t
  rw [Function.comp_apply, Table.typeFault?, List.find?_map, Option.map_map]
  rfl

/-- The first faulty table decides. Where it has a column of an unknown type, the first such column
is reported, wherever it stands among the texts that should count up by themselves. Otherwise the
first of these is what PostgreSQL cannot write. So the other dialects report the first unknown type
of all tables. -/
theorem ddl_ends_with_first_fault (db : Database) (d : Dialect) (ifNotExists : Bool) :
    (db.tables.find? (·.isFaulty d) = none → ∃ texts, db.ddl d ifNotExists = .ok texts) ∧
      (∀ t, db.tables.find? (·.isFaulty d) = some t →
        (∃ c, t.columns.find? (!·.hasKnownType) = some c ∧
            db.ddl d ifNotExists = .error (.unsupportedType t.name ⟨c.typeName⟩)) ∨
          t.hasKnownTypes ∧ d = .postgres ∧ ∃ c, t.columns.find? (·.isSerialText) = some c ∧
            db.ddl d ifNotExists = .error (.unwritable ⟨c.length⟩)) ∧
      (d ≠ .postgres → faultOf (db.ddl d ifNotExists) =
        (db.namedColumns.find? fun p => !p.2.hasKnownType).map fun p =>
          .unsupportedType p.1 ⟨p.2.typeName⟩) := by
  refine ⟨fun hnone => ?_, fun t ht => ?_, fun hd => ?_⟩
  · rw [← faultOf_eq_none_iff, faultOf_ddl_eq_find?, hnone]
    rfl
  · have hfault : faultOf (db.ddl d ifNotExists) = t.writeFault? d := by
      rw [faultOf_ddl_eq_find?, ht, Option.bind_some]
    have hfaulty : (t.writeFault? d).isSome := by
      rw [Table.isSome_writeFault?]
      exact List.find?_some ht
    rw [Table.writeFault?] at hfault hfaulty
    cases hc : t.columns.find? (!·.hasKnownType) with
    | some c =>
      refine .inl ⟨c, rfl, ?_⟩
      rwa [Table.typeFault?, hc, Option.map_some, Option.some_or, faultOf_eq_some_iff] at hfault
    | none =>
      have htype : t.typeFault? = none := by rw [Table.typeFault?, hc, Option.map_none]
      rw [htype, Option.none_or] at hfault hfaulty
      split_ifs at hfault hfaulty with hd
      · obtain ⟨c, hserial, hcause⟩ := Option.map_eq_some_iff.mp (Option.some_get hfaulty).symm
        refine .inr ⟨Table.typeFault?_eq_none_iff.mp htype, hd, c, hserial, ?_⟩
        rw [← faultOf_eq_some_iff, hfault, Table.serialFault?, hserial, Option.map_some]
      · cases hfaulty
  · rw [faultOf_ddl, ← findSome?_typeFault?]
    simp [Table.writeFault?, hd]

/-- The unknown type comes first in its table, although a text that should count up by itself stands
before it, and the other way round between tables. -/
example :
    let serial : Column := ⟨"a", "varchar", 8, .none, true⟩
    let unknown : Column := ⟨"b", "text", 0, .none, false⟩
    Database.ddl .postgres false ⟨[⟨"t", [serial, unknown], []⟩]⟩ =
      .error (.unsupportedType "t" ⟨"text"⟩) ∧
      Database.ddl .postgres false ⟨[⟨"t", [serial], []⟩, ⟨"u", [unknown], []⟩]⟩ =
        .error (.unwritable ⟨8⟩) ∧
      Database.ddl .mysql false ⟨[⟨"t", [serial], []⟩, ⟨"u", [unknown], []⟩]⟩ =
        .error (.unsupportedType "u" ⟨"text"⟩) :=
  ⟨rfl, rfl, rfl⟩

end Database

namespace Database

/-- Up to the first table with an unknown type, no text should count up by itself. -/
def IsFreeOfSerialTexts (db : Database) : Prop :=
  ∀ t ∈ db.tables.takeWhile (·.hasKnownTypes), ∀ c ∈ t.columns, c.isSerialText = false

theorem isFreeOfSerialTexts_cons {t : Table} {tables : List Table} :
    IsFreeOfSerialTexts ⟨t :: tables⟩ ↔
      (t.hasKnownTypes → t.serialFault? = none ∧ IsFreeOfSerialTexts ⟨tables⟩) := by
  rw [Table.serialFault?_eq_none_iff]
  cases h : t.hasKnownTypes <;> simp [IsFreeOfSerialTexts, h]

theorem faultOf_ddl_of_free {db : Database} (h : db.IsFreeOfSerialTexts) (d : Dialect)
    (ifNotExists : Bool) : faultOf (db.ddl d ifNotExists) = db.tables.findSome? (·.typeFault?) := by
  rw [faultOf_ddl]
  obtain ⟨tables⟩ := db
  induction tables with
  | nil => rfl
  | cons t tables ih =>
    rw [isFreeOfSerialTexts_cons] at h
    rw [List.findSome?_cons, List.findSome?_cons]
    cases ht : t.typeFault? with
    | some fault => simp [Table.writeFault?, ht]
    | none =>
      obtain ⟨hs, hrest⟩ := h (Table.typeFault?_eq_none_iff.mp ht)
      simpa [Table.writeFault?, ht, hs] using ih hrest

/-- Such a text is what PostgreSQL ends with, as no unknown type comes before it. -/
theorem faultOf_ddl_of_not_free {db : Database} (h : ¬ db.IsFreeOfSerialTexts)
    (ifNotExists : Bool) :
    ∃ cause, faultOf (db.ddl .postgres ifNotExists) = some (.unwritable cause) := by
  rw [faultOf_ddl]
  obtain ⟨tables⟩ := db
  induction tables with
  | nil => exact absurd (by simp [IsFreeOfSerialTexts]) h
  | cons t tables ih =>
    rw [isFreeOfSerialTexts_cons, Classical.not_imp, not_and] at h
    obtain ⟨hk, h⟩ := h
    have ht : t.typeFault? = none := Table.typeFault?_eq_none_iff.mpr hk
    rw [List.findSome?_cons]
    cases hs : t.serialFault? with
    | none => simpa [Table.writeFault?, ht, hs] using ih (h hs)
    | some fault =>
      obtain ⟨c, -, rfl⟩ := Option.map_eq_some_iff.mp hs
      exact ⟨⟨c.length⟩, by simp [Table.writeFault?, ht, hs]⟩

theorem typeFault?_is_unsupportedType {db : Database} {fault : DdlFault}
    (h : db.tables.findSome? (·.typeFault?) = some fault) :
    ∃ table type, fault = .unsupportedType table type := by
  obtain ⟨t, -, ht⟩ := List.exists_of_findSome?_eq_some h
  obtain ⟨c, -, rfl⟩ := Option.map_eq_some_iff.mp ht
  exact ⟨t.name, ⟨c.typeName⟩, rfl⟩

/-- Writing succeeds or reports an unknown type, and does so alike in all dialects, exactly for the
databases in which no text that should count up by itself comes before the first table with an
unknown type. -/
theorem ddl_ends_alike_iff (db : Database) (ifNotExists : Bool) :
    ((∀ d, (∃ statements, db.ddl d ifNotExists = .ok statements) ∨
          ∃ table type, db.ddl d ifNotExists = .error (.unsupportedType table type)) ∧
        ∀ d d', faultOf (db.ddl d ifNotExists) = faultOf (db.ddl d' ifNotExists)) ↔
      db.IsFreeOfSerialTexts := by
  constructor
  · rintro ⟨hends, -⟩
    by_contra hfree
    obtain ⟨cause, hc⟩ := faultOf_ddl_of_not_free hfree ifNotExists
    rw [faultOf_eq_some_iff] at hc
    rcases hends .postgres with ⟨statements, h⟩ | ⟨table, type, h⟩ <;> simp [hc] at h
  · intro hfree
    refine ⟨fun d => ?_, fun d d' => ?_⟩
    · cases h : db.ddl d ifNotExists with
      | ok statements => exact .inl ⟨statements, rfl⟩
      | error fault =>
        have hf : db.tables.findSome? (·.typeFault?) = some fault := by
          rw [← faultOf_ddl_of_free hfree d ifNotExists, h, faultOf_error]
        obtain ⟨table, type, rfl⟩ := typeFault?_is_unsupportedType hf
        exact .inr ⟨table, type, rfl⟩
    · rw [faultOf_ddl_of_free hfree, faultOf_ddl_of_free hfree]

/-- One text column that should count up by itself: two dialects write it, and PostgreSQL cannot. -/
theorem serialText_ends_in_postgres :
    ∃ db, Database.ofElement
          { tag := "database"
            children := [
              { tag := "table"
                attributes := [("name", "t")]
                children := [
                  { tag := "column"
                    attributes := [("name", "c"), ("type", "varchar"), ("length", "64"),
                      ("autoincrement", "true")] }] }] } = .ok db ∧
        db.ddl .postgres false = .error (.unwritable ⟨64⟩) ∧
        db.ddl .mysql false = .ok ["CREATE TABLE `t` ( `c` varchar(64) AUTO_INCREMENT )"] ∧
        db.ddl .sqlite false = .ok ["CREATE TABLE \"t\" ( \"c\" varchar(64) AUTOINCREMENT )"] :=
  ⟨⟨[⟨"t", [⟨"c", "varchar", 64, .none, true⟩], []⟩]⟩, rfl, rfl, rfl, rfl⟩

end Database

end SchemaDoc
