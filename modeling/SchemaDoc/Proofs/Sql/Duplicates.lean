import SchemaDoc.Proofs.Sql.Catalog
import Mathlib.Data.List.Nodup

/-!
# Tables of one name

Of several tables of one name a look-up finds the last (`Database.findTable?`), and a server that is
told to create each of them unless it exists keeps the first
(`Database.creations_keep_first_table`). The two agree exactly where the first and the last table of
each name have the same columns.
-/
namespace SchemaDoc

namespace Catalog

def table? (c : Catalog) (name : String) : Option TableEntry :=
  c.tables.find? (·.name == name)

theorem isSome_table? (c : Catalog) (name : String) : (c.table? name).isSome = c.hasTable name :=
  List.isSome_find?

theorem run_cons (d : Dialect) (c : Catalog) (s : Statement) (statements : List Statement) :
    c.run d (s :: statements) = (c.execute d s).bind (·.run d statements) :=
  List.foldlM_cons

variable {d : Dialect} {c after : Catalog}

theorem execute_createTable_eq_some_iff {e : TableEntry} {keys : List ForeignKey} :
    c.execute d (.createTable e.name true e.columns keys) = some after ↔
      (c.hasTable e.name = true ∧ after = c) ∨
        c.hasTable e.name = false ∧ (e.columns.map (·.name)).Nodup ∧
          after = ⟨c.tables ++ [e], c.keys ++ keys.map (·.entry)⟩ := by
  rw [execute]
  cases hc : c.hasTable e.name with
  | true => simp [eq_comm]
  | false =>
    by_cases hcolumns : (e.columns.map (·.name)).Nodup
    · simp [hcolumns, eq_comm]
    · simp [hcolumns]

theorem exists_execute_createTable_iff {e : TableEntry} {keys : List ForeignKey} :
    (∃ after, c.execute d (.createTable e.name true e.columns keys) = some after) ↔
      (c.hasTable e.name = false → (e.columns.map (·.name)).Nodup) := by
  simp only [execute_createTable_eq_some_iff, exists_or, exists_and_left, exists_eq, and_true]
  cases c.hasTable e.name <;> simp

theorem table?_of_execute {e : TableEntry} {keys : List ForeignKey}
    (h : c.execute d (.createTable e.name true e.columns keys) = some after) (name : String) :
    after.table? name = (c.table? name).or ([e].find? (·.name == name)) := by
  rcases execute_createTable_eq_some_iff.mp h with ⟨htable, rfl⟩ | ⟨-, -, rfl⟩
  · by_cases hname : e.name = name
    · rw [← isSome_table?, hname] at htable
      rw [Option.or_of_isSome htable]
    · simp [hname]
  · exact List.find?_append

theorem hasTable_of_execute {e : TableEntry} {keys : List ForeignKey}
    (h : c.execute d (.createTable e.name true e.columns keys) = some after) (name : String) :
    after.hasTable name = (c.hasTable name || e.name == name) := by
  rw [← isSome_table?, table?_of_execute h, Option.isSome_or, isSome_table?, List.isSome_find?,
    List.any_cons, List.any_nil, Bool.or_false]

variable {tables : List Table} {entries : List TableEntry} {statements : List Statement}

/-- All tables can be created exactly if each that is the first of a new name repeats no column. -/
theorem exists_run_iff (hentries : tables.mapM Table.entry = .ok entries)
    (hstatements : tables.mapM (·.creation d true) = .ok statements) :
    (∃ after, c.run d statements = some after) ↔
      ∀ name t, c.hasTable name = false → tables.find? (·.name == name) = some t →
        (t.columns.map (·.name)).Nodup := by
  rw [mapM_eq_ok_iff] at hentries hstatements
  induction hentries generalizing c statements with
  | nil =>
    cases hstatements
    simp [run]
  | @cons t e tables entries he _ ih =>
    cases hstatements with
    | @cons _ s _ statements hs hstatements =>
      obtain ⟨e', he', rfl⟩ := Table.creation_eq_ok_iff_entry.mp hs
      cases he.symm.trans he'
      have hname := (Table.entry_eq_ok_iff.mp he).2
      have hcolumns := Table.columnNames_of_entry he
      calc (∃ after, c.run d (_ :: statements) = some after)
          ↔ ∃ between, c.execute d _ = some between ∧
              ∃ after, between.run d statements = some after := by
            simp only [run_cons, Option.bind_eq_some_iff]
            exact exists_comm.trans (exists_congr fun _ => exists_and_left)
        _ ↔ (∃ between, c.execute d _ = some between) ∧ ∀ name u,
          (c.hasTable name || e.name == name) = false →
              tables.find? (·.name == name) = some u → (u.columns.map (·.name)).Nodup := by
            rw [← exists_and_right]
            refine exists_congr fun between => and_congr_right fun hstep => ?_
            rw [ih hstatements]
            simp only [hasTable_of_execute hstep]
        _ ↔ _ := by
            rw [exists_execute_createTable_iff, hname, hcolumns]
            constructor
            · rintro ⟨ht, hrest⟩ name u hnew hu
              by_cases hne : t.name = name
              · rw [List.find?_cons_of_pos (by simp [hne]), Option.some.injEq] at hu
                subst hne hu
                exact ht hnew
              · rw [List.find?_cons_of_neg (by simp [hne])] at hu
                exact hrest name u (by simp [hnew, hne]) hu
            · intro h
              refine ⟨fun hnew => h t.name t hnew (by simp), fun name u hnew hu => ?_⟩
              rw [Bool.or_eq_false_iff, beq_eq_false_iff_ne] at hnew
              exact h name u hnew.1 (by rw [List.find?_cons_of_neg (by simp [hnew.2]), hu])

/-- No two tables of a catalog have one name. -/
def IsKeyed (c : Catalog) : Prop :=
  (c.tables.map (·.name)).Nodup

theorem IsKeyed.execute {s : Statement} (hc : c.IsKeyed) (h : c.execute d s = some after) :
    after.IsKeyed := by
  cases s with
  | createTable name ifNotExists columns keys =>
    rw [Catalog.execute] at h
    split_ifs at h with htable _ hcolumns
    · cases h
      exact hc
    · cases h
      have hnew : ∀ e ∈ c.tables, e.name ≠ name := by simpa [hasTable] using htable
      rw [IsKeyed, List.map_append, List.map_singleton, List.nodup_append]
      refine ⟨hc, List.nodup_singleton name, fun n hn m hm => ?_⟩
      obtain ⟨e, he, rfl⟩ := List.mem_map.mp hn
      rw [List.mem_singleton.mp hm]
      exact hnew e he
  | addForeignKey key =>
    rw [Catalog.execute] at h
    split_ifs at h
    cases h
    exact hc

theorem IsKeyed.run (hc : c.IsKeyed) (h : c.run d statements = some after) : after.IsKeyed := by
  induction statements generalizing c with
  | nil =>
    cases h
    exact hc
  | cons s statements ih =>
    rw [run_cons, Option.bind_eq_some_iff] at h
    obtain ⟨between, hstep, hrun⟩ := h
    exact ih (hc.execute hstep) hrun

end Catalog

namespace Database

theorem findingFor?_eq_none_iff {db : Database} {table column : String} {r : Reference} :
    db.findingFor? table column r = none ↔ ∃ name target t,
      r.target? = some (name, target) ∧ db.findTable? name = some t ∧
        (t.findColumn? target).isSome := by
  rw [findingFor?]
  cases r.target? with
  | none => simp
  | some target =>
    obtain ⟨name, target⟩ := target
    cases ht : db.findTable? name with
    | none => simp [ht]
    | some t => cases hc : t.findColumn? target <;> simp [ht, hc]

end Database

end SchemaDoc
