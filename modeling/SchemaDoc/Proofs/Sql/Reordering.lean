import Mathlib.Data.List.Nodup
import Mathlib.Data.List.Perm.Basic
import SchemaDoc.Proofs.Sql.KeyPartition

/-!
# The order of tables

Tables of different names may stand in a document in any order. A look-up finds the same tables, so
the same references lead nowhere, and the database is written with the same statements and grants,
in another order among the creations and among the alterations (`Database.loads_reordered`).
-/
namespace SchemaDoc

theorem exists_mapM_of_perm {ε α β : Type} {f : α → Except ε β} {l m : List α} {r : List β}
    (h : m.Perm l) (hl : l.mapM f = .ok r) : ∃ s, m.mapM f = .ok s ∧ s.Perm r := by
  rw [mapM_eq_ok_iff] at hl
  obtain ⟨s, hs, hperm⟩ := List.perm_comp_forall₂ h hl
  exact ⟨s, mapM_eq_ok_iff.mpr hs, hperm⟩

namespace Dialect

/-- Statements that create tables, and behind them others that alter tables. -/
structure Divides (d : Dialect) (texts creations alterations : List String) : Prop where
  append : texts = creations ++ alterations
  creates : ∀ text ∈ creations, (d.createdTable? text).isSome
  alters : ∀ text ∈ alterations, d.createdTable? text = none ∧ (d.alteration? text).isSome

end Dialect

namespace Database

theorem findTable?_eq_some_iff {db : Database} (hnames : db.tableNames.Nodup) {name : String}
    {t : Table} : db.findTable? name = some t ↔ t ∈ db.tables ∧ t.name = name := by
  constructor
  · intro h
    exact ⟨List.mem_reverse.mp (List.mem_of_find?_eq_some h), by simpa using List.find?_some h⟩
  · rintro ⟨ht, hname⟩
    cases hfound : db.findTable? name with
    | none => exact absurd hname (findTable?_eq_none_iff.mp hfound t ht)
    | some found =>
      have hmem : found ∈ db.tables := List.mem_reverse.mp (List.mem_of_find?_eq_some hfound)
      have hsame : found.name = t.name := by
        rw [hname]
        simpa using List.find?_some hfound
      rw [List.inj_on_of_nodup_map hnames hmem ht hsame]

theorem divides_of_mapM {db : Database} {d : Dialect} {ifNotExists : Bool}
    {creations alterations : List String}
    (hcreations : db.tables.mapM (·.writeCreation d ifNotExists) = .ok creations)
    (halterations : (db.tables.flatMap (·.additions d)).mapM (·.write d) = .ok alterations) :
    d.Divides (creations ++ alterations) creations alterations where
  append := rfl
  creates := by
    refine forall_mem_of_forall₂ (mapM_eq_ok_iff.mp hcreations) fun t text h => ?_
    rw [(Table.creates_of_writeCreation h).1]
    rfl
  alters := by
    intro text htext
    rw [flatMap_additions] at halterations
    split_ifs at halterations with hd
    · cases halterations
      cases htext
    · rw [mapM_eq_ok_iff, List.forall₂_map_left_iff] at halterations
      refine forall_mem_of_forall₂ (Q := fun text => d.createdTable? text = none ∧
        (d.alteration? text).isSome) halterations (fun k text h => ?_) text htext
      obtain ⟨hcreated, haltered⟩ := Statement.alters_of_write h
      refine ⟨hcreated, ?_⟩
      rw [← Option.isSome_map, haltered]
      rfl

section

variable {db db' : Database}

theorem findTable?_of_perm (h : db'.tables.Perm db.tables) (hnames : db.tableNames.Nodup)
    (name : String) : db'.findTable? name = db.findTable? name := by
  have hnames' : db'.tableNames.Nodup := (h.map Table.name).nodup_iff.mpr hnames
  ext t
  rw [findTable?_eq_some_iff hnames, findTable?_eq_some_iff hnames', h.mem_iff]

theorem danglingReferences_perm (h : db'.tables.Perm db.tables) (hnames : db.tableNames.Nodup) :
    db'.danglingReferences.Perm db.danglingReferences := by
  have hfinding : ∀ t : Table, t.columns.filterMap (db'.finding? t.name) =
      t.columns.filterMap (db.finding? t.name) := by
    intro t
    congr 1
    funext c
    simp only [finding?, findingFor?, findTable?_of_perm h hnames]
  simp only [danglingReferences, hfinding]
  exact h.flatMap_right _

theorem grants_perm (h : db'.tables.Perm db.tables) (d : Dialect) :
    (db'.grants d).Perm (db.grants d) :=
  h.flatMap_right _

theorem exists_ddl_iff_of_perm (h : db'.tables.Perm db.tables) (d : Dialect) (ifNotExists : Bool) :
    (∃ texts, db'.ddl d ifNotExists = .ok texts) ↔ ∃ texts, db.ddl d ifNotExists = .ok texts := by
  rw [← faultOf_eq_none_iff, ← faultOf_eq_none_iff, faultOf_ddl, faultOf_ddl,
    List.findSome?_eq_none_iff, List.findSome?_eq_none_iff]
  exact forall_congr' fun t => imp_congr_left h.mem_iff

/-- Both passes over the tables write the same in another order. -/
theorem divides_of_perm (h : db'.tables.Perm db.tables) {d : Dialect} {ifNotExists : Bool}
    {texts texts' : List String} (htexts : db.ddl d ifNotExists = .ok texts)
    (htexts' : db'.ddl d ifNotExists = .ok texts') :
    ∃ creations alterations creations' alterations', d.Divides texts creations alterations ∧
      d.Divides texts' creations' alterations' ∧ creations'.Perm creations ∧
      alterations'.Perm alterations := by
  obtain ⟨creations, hcreations, hrest⟩ := bind_eq_ok_iff.mp htexts
  obtain ⟨alterations, halterations, hall⟩ := bind_eq_ok_iff.mp hrest
  cases hall
  obtain ⟨creations', hcreations', hcreationsPerm⟩ := exists_mapM_of_perm h hcreations
  obtain ⟨alterations', halterations', halterationsPerm⟩ :=
    exists_mapM_of_perm (h.flatMap_right (·.additions d)) halterations
  have hall' : texts' = creations' ++ alterations' := by
    rw [ddl, hcreations'] at htexts'
    simp only [bind, Except.bind, halterations', pure, Except.pure] at htexts'
    cases htexts'
    rfl
  subst hall'
  exact ⟨creations, alterations, creations', alterations', divides_of_mapM hcreations halterations,
    divides_of_mapM hcreations' halterations', hcreationsPerm, halterationsPerm⟩

end

/-- A document whose tables have different names gives the same look-ups when its tables are put
into another order, and the same findings, creations, alterations and grants, each of these kinds in
another order. Whether it can be written stays the same in each dialect. -/
theorem loads_reordered {root root' : Element} {db : Database} (hload : ofElement root = .ok db)
    (hnames : db.tableNames.Nodup)
    (horder : (root'.childrenTagged "table").Perm (root.childrenTagged "table")) :
    ∃ db', ofElement root' = .ok db' ∧ (∀ name, db'.findTable? name = db.findTable? name) ∧
      db'.danglingReferences.Perm db.danglingReferences ∧
      ∀ d ifNotExists,
        ((∃ texts, db'.ddl d ifNotExists = .ok texts) ↔ ∃ texts, db.ddl d ifNotExists = .ok texts) ∧
        (∀ texts texts', db.ddl d ifNotExists = .ok texts → db'.ddl d ifNotExists = .ok texts' →
          ∃ creations alterations creations' alterations', d.Divides texts creations alterations ∧
            d.Divides texts' creations' alterations' ∧ creations'.Perm creations ∧
            alterations'.Perm alterations) ∧
        (db'.grants d).Perm (db.grants d) := by
  obtain ⟨tables, htables, h⟩ := bind_eq_ok_iff.mp hload
  cases h
  obtain ⟨tables', htables', hperm⟩ := exists_mapM_of_perm horder htables
  have hload' : ofElement root' = .ok ⟨tables'⟩ := by
    rw [ofElement, htables']
    rfl
  have h : (Database.mk tables').tables.Perm (Database.mk tables).tables := hperm
  exact ⟨⟨tables'⟩, hload', findTable?_of_perm h hnames, danglingReferences_perm h hnames,
      fun d ifNotExists =>
    ⟨exists_ddl_iff_of_perm h d ifNotExists, fun _ _ => divides_of_perm h, grants_perm h d⟩⟩

/-- A table that refers to the one of `shiftTable`. -/
def crewTable : Element where
  tag := "table"
  attributes := [("name", "crew")]
  children := [
    { tag := "column"
      attributes := [("name", "shift"), ("type", "int"), ("key", "foreign")]
      children := [{ tag := "fkey_table", text := some "shift" },
        { tag := "fkey_column", text := some "id" }] },
    { tag := "permissions"
      attributes := [("user", "svc")]
      children := [{ tag := "permission", text := some "SELECT" }] }]

/-- A table that refers to a column that the one of `crewTable` does not have. -/
def shiftTable : Element where
  tag := "table"
  attributes := [("name", "shift")]
  children := [
    { tag := "column", attributes := [("name", "id"), ("type", "int"), ("key", "primary")] },
    { tag := "column"
      attributes := [("name", "head"), ("type", "int"), ("key", "foreign")]
      children := [{ tag := "fkey_table", text := some "crew" },
        { tag := "fkey_column", text := some "id" }] }]

def rotaTree : Element where
  tag := "database"
  children := [crewTable, shiftTable]

/-- The tables of `rotaTree` the other way round. -/
def turnedTree : Element where
  tag := "database"
  children := [shiftTable, { tag := "note" }, crewTable]

theorem loads_reordered_turnedTree :
    ∃ db db' texts texts', ofElement rotaTree = .ok db ∧ db.tableNames.Nodup ∧
      (turnedTree.childrenTagged "table").Perm (rotaTree.childrenTagged "table") ∧
      ofElement turnedTree = .ok db' ∧ (∀ name, db'.findTable? name = db.findTable? name) ∧
      db.danglingReferences = [.unknownColumn "shift" "head" "crew" "id"] ∧
      db'.danglingReferences.Perm db.danglingReferences ∧
      db.ddl .postgres true = .ok texts ∧ db'.ddl .postgres true = .ok texts' ∧
      (∃ creations alterations creations' alterations',
        Dialect.postgres.Divides texts creations alterations ∧
        Dialect.postgres.Divides texts' creations' alterations' ∧ creations'.Perm creations ∧
        alterations'.Perm alterations) ∧
      (db'.grants .postgres).Perm (db.grants .postgres) := by
  let db : Database := ⟨[
    ⟨"crew", [⟨"shift", "int", 0, .foreign ⟨some "shift", some "id", none⟩, false⟩],
      [⟨"svc", ["SELECT"]⟩]⟩,
    ⟨"shift", [⟨"id", "int", 0, .primary, false⟩,
      ⟨"head", "int", 0, .foreign ⟨some "crew", some "id", none⟩, false⟩], []⟩]⟩
  have hload : ofElement rotaTree = .ok db := rfl
  have hnames : db.tableNames.Nodup := by decide
  have horder : (turnedTree.childrenTagged "table").Perm (rotaTree.childrenTagged "table") :=
    .swap _ _ _
  obtain ⟨db', hload', hfind, hdangling, hscripts⟩ := loads_reordered hload hnames horder
  obtain ⟨hwritten, hdivides, hgrants⟩ := hscripts .postgres true
  obtain ⟨texts, htexts⟩ : ∃ texts, db.ddl .postgres true = .ok texts := ⟨_, rfl⟩
  obtain ⟨texts', htexts'⟩ := hwritten.mpr ⟨texts, htexts⟩
  exact ⟨db, db', texts, texts', hload, hnames, horder, hload', hfind, by decide, hdangling,
    htexts, htexts', hdivides texts texts' htexts htexts', hgrants⟩

end Database

end SchemaDoc
