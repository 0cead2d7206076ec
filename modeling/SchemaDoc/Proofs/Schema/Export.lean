import SchemaDoc.Proofs.Json.Unambiguous
import SchemaDoc.Schema.Record

/-!
# What the export keeps

The JSON text of a database shows all of it: each part of a record has a member of its own, and the
member for the reference of a column is there exactly for foreign keys, with null for each part that
is left out. As no two JSON values have the same text, databases with the same text are the same
(`Database.jsonText_inj`).
-/
namespace SchemaDoc

theorem Json.ofOption_inj {v w : Option String} : Json.ofOption v = Json.ofOption w ↔ v = w := by
  cases v <;> cases w <;> simp [Json.ofOption]

theorem Reference.toJson_inj {r s : Reference} : r.toJson = s.toJson ↔ r = s := by
  obtain ⟨table?, column?, constraint?⟩ := r
  obtain ⟨table'?, column'?, constraint'?⟩ := s
  simp [toJson, Json.ofOption_inj]

theorem ColumnRecord.toJson_inj {c d : ColumnRecord} : c.toJson = d.toJson ↔ c = d := by
  obtain ⟨name, typeName, length, nullable, primary, foreign, auto, reference?⟩ := c
  obtain ⟨name', typeName', length', nullable', primary', foreign', auto', reference'?⟩ := d
  cases reference? <;> cases reference'? <;> simp [toJson, Reference.toJson_inj]

theorem Permission.toJson_inj {p q : Permission} : p.toJson = q.toJson ↔ p = q := by
  obtain ⟨user, actions⟩ := p
  obtain ⟨user', actions'⟩ := q
  have hactions : actions.map Json.string = actions'.map Json.string ↔ actions = actions' :=
    List.map_inj_right fun _ _ => Json.string.inj
  simp [toJson, hactions]

theorem TableRecord.toJson_inj {t u : TableRecord} : t.toJson = u.toJson ↔ t = u := by
  obtain ⟨name, columns, permissions⟩ := t
  obtain ⟨name', columns', permissions'⟩ := u
  have hcolumns : columns.map (·.toJson) = columns'.map (·.toJson) ↔ columns = columns' :=
    List.map_inj_right fun _ _ => ColumnRecord.toJson_inj.mp
  have hpermissions : permissions.map (·.toJson) = permissions'.map (·.toJson) ↔
      permissions = permissions' :=
    List.map_inj_right fun _ _ => Permission.toJson_inj.mp
  simp [toJson, hcolumns, hpermissions]

theorem DatabaseRecord.toJson_inj {d e : DatabaseRecord} : d.toJson = e.toJson ↔ d = e := by
  obtain ⟨tables⟩ := d
  obtain ⟨tables'⟩ := e
  have htables : tables.map (·.toJson) = tables'.map (·.toJson) ↔ tables = tables' :=
    List.map_inj_right fun _ _ => TableRecord.toJson_inj.mp
  simp [toJson, htables]

theorem Table.record_inj {t u : Table} : t.record = u.record ↔ t = u := by
  obtain ⟨name, columns, permissions⟩ := t
  obtain ⟨name', columns', permissions'⟩ := u
  have hcolumns : columns.map (·.record) = columns'.map (·.record) ↔ columns = columns' :=
    List.map_inj_right fun _ _ => Column.record_injective
  simp [record, hcolumns]

theorem Database.record_inj {a b : Database} : a.record = b.record ↔ a = b := by
  obtain ⟨tables⟩ := a
  obtain ⟨tables'⟩ := b
  have htables : tables.map (·.record) = tables'.map (·.record) ↔ tables = tables' :=
    List.map_inj_right fun _ _ => Table.record_inj.mp
  simp [record, htables]

/-- Databases with the same JSON text are the same, whatever stands in their names, actions and
references. -/
theorem Database.jsonText_inj (a b : Database) : a.jsonText = b.jsonText ↔ a = b := by
  rw [jsonText, jsonText, Json.pretty_inj, DatabaseRecord.toJson_inj, record_inj]

end SchemaDoc
