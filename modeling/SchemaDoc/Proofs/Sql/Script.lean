import SchemaDoc.Proofs.Sql.Quotation
import SchemaDoc.Proofs.Sql.Statements

/-!
# The statements of a script

Names, users and types are written so that every statement is whole, with one exception: the name of
a constraint stands between quote marks as it is. So a script with its grants falls apart into its
statements exactly if the names of its constraints fit between quote marks
(`Database.splitScript?_writeScript_iff`).
-/
namespace SchemaDoc

theorem isPlain_append (a b : String) : isPlain (a ++ b) = (isPlain a && isPlain b) := by
  simp [isPlain]

theorem isPlain_of_all {kind : Char → Bool} (hkind : lexicalMarks.any kind = false) {s : String}
    (h : ∀ c ∈ s.toList, kind c) : isPlain s := by
  rw [isPlain, List.all_eq_true]
  intro c hc
  rw [Bool.not_eq_true', List.contains_eq_mem, decide_eq_false_iff_not]
  intro hmem
  exact List.any_eq_false.mp hkind c hmem (h c hc)

theorem isPlain_toString (n : Nat) : isPlain (toString n) := by
  have hdigit : lexicalMarks.any Char.isDigit = false := by decide
  apply isPlain_of_all hdigit
  rw [Nat.toString_eq_repr, Nat.toList_repr]
  intro c hc
  exact Nat.isDigit_of_mem_toDigits (by decide) (by decide) hc

theorem isPlain_of_isActionWord {action : String} (h : isActionWord action) : isPlain action := by
  rw [isActionWord, Bool.and_eq_true, List.all_eq_true] at h
  have hword : (lexicalMarks.any fun c => c.isAlpha || c == ' ') = false := by decide
  exact isPlain_of_all hword h.2

theorem ColumnType.isPlain_text (d : Dialect) (t : ColumnType) : isPlain (t.text d) := by
  cases t with
  | int => cases d <;> decide
  | varchar n =>
    cases n with
    | zero => cases d <;> decide
    | succ n =>
      rw [ColumnType.text, isPlain_append, isPlain_append, isPlain_toString, Bool.and_true]
      decide

namespace ColumnDefinition

theorem isPlain_of_typeText {d : Dialect} {c : ColumnDefinition} {type : String}
    (h : c.typeText d = .ok type) : isPlain type := by
  rw [typeText] at h
  split_ifs at h
  · cases htype : c.type with
    | int =>
      rw [htype] at h
      cases h
      decide
    | varchar n =>
      rw [htype] at h
      cases h
  · cases h
    exact c.type.isPlain_text d

theorem isPlain_autoincrementText (d : Dialect) (c : ColumnDefinition) :
    isPlain (c.autoincrementText d) := by
  cases d <;> rw [autoincrementText.eq_def] <;> split_ifs <;> decide

theorem isSettled_text {d : Dialect} {c : ColumnDefinition} {text : String}
    (h : c.text d = .ok text) : d.IsSettled text := by
  rw [ColumnDefinition.text, bind_eq_ok_iff] at h
  obtain ⟨type, htype, h⟩ := h
  cases h
  have hblank : isPlain " " := by decide
  have hkey : isPlain (if c.isPrimaryKey then " PRIMARY KEY" else "") := by split_ifs <;> decide
  apply Dialect.IsSettled.append _ (d.isSettled_of_plain (c.isPlain_autoincrementText d))
  apply Dialect.IsSettled.append _ (d.isSettled_of_plain hkey)
  apply Dialect.IsSettled.append _ (d.isSettled_of_plain (isPlain_of_typeText htype))
  exact (d.isSettled_quote c.name).append (d.isSettled_of_plain hblank)

end ColumnDefinition

namespace ForeignKey

/-- Read between quote marks, a text ends there again, and no statement ends in it. -/
def FitsBetweenMarks (d : Dialect) (name : String) : Prop :=
  d.walk .name name.toList = some .name

theorem fitsBetweenMarks_of_not_mem {d : Dialect} {name : String} (h : d.quoteMark ∉ name.toList) :
    FitsBetweenMarks d name := by
  rw [FitsBetweenMarks, ← doubled_of_not_mem h, d.walk_doubled_name]

theorem isWhole_markedName_iff {d : Dialect} {name : String} :
    d.IsWhole (markedName d name) ↔ FitsBetweenMarks d name := by
  have hmark : d.quoteMark.toString.toList = [d.quoteMark] := String.toList_singleton _
  rw [Dialect.IsWhole, markedName, String.toList_append, String.toList_append, hmark,
    List.cons_append, List.nil_append, List.cons_append, Dialect.walk_cons, Dialect.next?_quoteMark,
    Option.bind_some, Dialect.walk_append, FitsBetweenMarks]
  cases d.walk .name name.toList with
  | none => simp
  | some p => cases p <;> simp [Dialect.walk_cons, Dialect.next?_quoteMark]

/-- The name of the constraint, if there is one, fits between quote marks. -/
def IsMarkable (d : Dialect) (k : ForeignKey) : Prop :=
  ∀ name, k.constraint? = some name → FitsBetweenMarks d name

theorem isWhole_constraintText_iff {d : Dialect} {k : ForeignKey} :
    d.IsWhole (k.constraintText d) ↔ k.IsMarkable d := by
  have hword : isPlain "CONSTRAINT " := by decide
  have hblank : isPlain " " := by decide
  cases hname : k.constraint? with
  | none =>
    have hplain : isPlain (k.constraintText d) := by
      cases d <;> simp only [constraintText, hname] <;> decide
    simp [IsMarkable, hname, (d.isSettled_of_plain hplain).whole]
  | some name =>
    have htext : k.constraintText d = "CONSTRAINT " ++ markedName d name ++ " " := by
      cases d <;> simp [constraintText, hname]
    rw [htext, Dialect.isWhole_append_iff_of_isSettled (d.isSettled_of_plain hblank),
      Dialect.isWhole_append_iff (d.isSettled_of_plain hword).whole, isWhole_markedName_iff]
    simp [IsMarkable, hname]

theorem isSettled_clause (d : Dialect) (k : ForeignKey) : d.IsSettled (k.clause d) := by
  have hopen : isPlain "FOREIGN KEY (" := by decide
  have hreferences : isPlain ") REFERENCES " := by decide
  have hcolumn : isPlain " (" := by decide
  have hclose : isPlain ")" := by decide
  apply Dialect.IsSettled.append _ (d.isSettled_of_plain hclose)
  apply Dialect.IsSettled.append _ (d.isSettled_quote k.targetColumn)
  apply Dialect.IsSettled.append _ (d.isSettled_of_plain hcolumn)
  apply Dialect.IsSettled.append _ (d.isSettled_quote k.targetTable)
  apply Dialect.IsSettled.append _ (d.isSettled_of_plain hreferences)
  exact (d.isSettled_of_plain hopen).append (d.isSettled_quote k.column)

end ForeignKey

namespace Statement

/-- A statement that names a constraint does so by a name that fits between quote marks. -/
def IsMarkable (d : Dialect) : Statement → Prop
  | createTable _ _ _ _ => True
  | addForeignKey key => key.IsMarkable d

theorem isWhole_of_createTable {d : Dialect} {name : String} {ifNotExists : Bool}
    {columns : List ColumnDefinition} {keys : List ForeignKey} {text : String}
    (h : (createTable name ifNotExists columns keys).text d = .ok text) : d.IsWhole text := by
  rw [Statement.text, bind_eq_ok_iff] at h
  obtain ⟨definitions, hd, h⟩ := h
  cases h
  have hcreate : isPlain "CREATE TABLE " := by decide
  have hguard : isPlain (if ifNotExists then "IF NOT EXISTS " else "") := by split_ifs <;> decide
  have hopen : isPlain " ( " := by decide
  have hcomma : isPlain ", " := by decide
  have hclose : isPlain " )" := by decide
  have hdefinitions : ∀ item ∈ definitions, d.IsWhole item :=
    (forall_mem_iff_of_mapM hd fun _ _ hc =>
      iff_true_intro (ColumnDefinition.isSettled_text hc).whole).mpr fun _ _ => trivial
  have hitems : ∀ item ∈ definitions ++ keys.map (·.clause d), d.IsWhole item := by
    intro item hitem
    rcases List.mem_append.mp hitem with hitem | hitem
    · exact hdefinitions item hitem
    · obtain ⟨k, -, rfl⟩ := List.mem_map.mp hitem
      exact (k.isSettled_clause d).whole
  apply Dialect.IsWhole.append _ (d.isSettled_of_plain hclose).whole
  apply Dialect.IsWhole.append _
    (Dialect.isWhole_intercalate (d.isSettled_of_plain hcomma).whole hitems)
  apply Dialect.IsWhole.append _ (d.isSettled_of_plain hopen).whole
  apply Dialect.IsWhole.append _ (d.isSettled_quote name).whole
  exact ((d.isSettled_of_plain hcreate).append (d.isSettled_of_plain hguard)).whole

theorem isWhole_addForeignKey_iff {d : Dialect} {k : ForeignKey} {text : String}
    (h : (addForeignKey k).text d = .ok text) : d.IsWhole text ↔ k.IsMarkable d := by
  cases h
  have halter : isPlain "ALTER TABLE " := by decide
  have hadd : isPlain " ADD " := by decide
  have hfront : d.IsWhole ("ALTER TABLE " ++ d.quote k.table ++ " ADD ") :=
    (((d.isSettled_of_plain halter).append (d.isSettled_quote k.table)).append
      (d.isSettled_of_plain hadd)).whole
  rw [Dialect.isWhole_append_iff_of_isSettled (k.isSettled_clause d),
    Dialect.isWhole_append_iff hfront, ForeignKey.isWhole_constraintText_iff]

theorem isWhole_write_iff {d : Dialect} {s : Statement} {text : String} (h : s.write d = .ok text) :
    d.IsWhole text ↔ s.IsMarkable d := by
  rw [write_eq_ok_iff] at h
  cases s with
  | createTable name ifNotExists columns keys =>
    exact iff_of_true (isWhole_of_createTable h) trivial
  | addForeignKey k => exact isWhole_addForeignKey_iff h

theorem isMarkable_of_creation {d : Dialect} {ifNotExists : Bool} {t : Table} {s : Statement}
    (h : t.creation d ifNotExists = .ok s) : s.IsMarkable d := by
  obtain ⟨columns, -, rfl⟩ := Table.creation_eq_ok_iff.mp h
  trivial

end Statement

theorem Table.forall_additions_isMarkable_iff {d : Dialect} {t : Table} :
    (∀ s ∈ t.additions d, s.IsMarkable d) ↔
      d.inlinesForeignKeys ∨ ∀ k ∈ t.foreignKeys, k.IsMarkable d := by
  rw [Table.additions]
  split_ifs with h
  · simp [h]
  · simp [h, Statement.IsMarkable]

theorem Dialect.isWhole_grantee (d : Dialect) (user : String) : d.IsWhole (d.grantee user) := by
  cases d with
  | mysql => exact isWhole_stringLiteral user
  | postgres => exact (isSettled_quote _ user).whole
  | sqlite => exact (isSettled_quote _ user).whole

theorem Dialect.isWhole_grantText (d : Dialect) {actions : List String}
    (h : ∀ a ∈ actions, isActionWord a) (table user : String) :
    d.IsWhole (d.grantText actions table user) := by
  have hgrant : isPlain "GRANT " := by decide
  have hcomma : isPlain ", " := by decide
  have hon : isPlain " ON " := by decide
  have hto : isPlain " TO " := by decide
  have hactions : ∀ a ∈ actions, d.IsWhole a :=
    fun a ha => (d.isSettled_of_plain (isPlain_of_isActionWord (h a ha))).whole
  apply IsWhole.append _ (d.isWhole_grantee user)
  apply IsWhole.append _ (d.isSettled_of_plain hto).whole
  apply IsWhole.append _ (d.isSettled_quote table).whole
  apply IsWhole.append _ (d.isSettled_of_plain hon).whole
  exact (d.isSettled_of_plain hgrant).whole.append
    (isWhole_intercalate (d.isSettled_of_plain hcomma).whole hactions)

theorem Permission.isActionWord_of_mem_grantedActions {p : Permission} {action : String}
    (h : action ∈ p.grantedActions) : isActionWord action := by
  rw [grantedActions, mem_withoutRepeats, List.mem_filter] at h
  exact h.2

namespace Database

theorem isWhole_of_mem_grants {d : Dialect} {db : Database} {text : String}
    (h : text ∈ db.grants d) : d.IsWhole text := by
  obtain ⟨t, -, h⟩ := List.mem_flatMap.mp h
  rw [Table.grants] at h
  split_ifs at h
  · obtain ⟨p, -, h⟩ := List.mem_filterMap.mp h
    rw [Table.grant?] at h
    split_ifs at h
    cases h
    exact d.isWhole_grantText (fun _ ha => p.isActionWord_of_mem_grantedActions ha) t.name p.user
  · cases h

theorem forall_isWhole_ddl_iff {d : Dialect} {ifNotExists : Bool} {db : Database}
    {texts : List String} (h : db.ddl d ifNotExists = .ok texts) :
    (∀ text ∈ texts, d.IsWhole text) ↔
      d.inlinesForeignKeys ∨ ∀ t ∈ db.tables, ∀ k ∈ t.foreignKeys, k.IsMarkable d := by
  obtain ⟨statements, hs, ht⟩ := ddl_eq_ok_iff.mp h
  obtain ⟨creations, hc, rfl⟩ := statements_eq_ok_iff.mp hs
  have hcreations : ∀ s ∈ creations, s.IsMarkable d :=
    (forall_mem_iff_of_mapM hc fun _ _ hs =>
      iff_true_intro (Statement.isMarkable_of_creation hs)).mpr fun _ _ => trivial
  rw [forall_mem_iff_of_mapM ht fun _ _ => Statement.isWhole_write_iff, List.forall_mem_append,
    and_iff_right hcreations, List.forall_mem_flatMap]
  simp only [Table.forall_additions_isMarkable_iff]
  by_cases hd : d.inlinesForeignKeys <;> simp [hd]

/-- The script of a database with its grants falls apart into the statements and the grants exactly
if keys are declared inside the tables, or the names of all constraints fit between quote marks. -/
theorem splitScript?_writeScript_iff (db : Database) (s : Settings) (texts : List String)
    (h : db.ddl s.dialect s.ifNotExists = .ok texts) :
    s.dialect.splitScript? (writeScript db s true).output = some (texts ++ db.grants s.dialect) ↔
      s.dialect.inlinesForeignKeys ∨ ∀ t ∈ db.tables, ∀ k ∈ t.foreignKeys,
        k.IsMarkable s.dialect := by
  have houtput : (writeScript db s true).output = script (texts ++ db.grants s.dialect) := by
    simp [writeScript, h, Outcome.output]
  rw [houtput, Dialect.splitScript?_script_iff, List.forall_mem_append, forall_isWhole_ddl_iff h]
  exact and_iff_left fun _ => isWhole_of_mem_grants

/-- A table with a key to itself, whose constraint has a name. -/
def selfReference : Database :=
  ⟨[⟨"t", [⟨"c", "int", 0, .foreign ⟨some "t", some "c", some "k"⟩, false⟩],
    [⟨"o'hara", ["SELECT"]⟩]⟩]⟩

theorem splitScript?_writeScript_selfReference :
    ∃ texts, selfReference.ddl .mysql false = .ok texts ∧
      Dialect.mysql.splitScript? (writeScript selfReference ⟨.mysql, false⟩ true).output =
        some (texts ++ selfReference.grants .mysql) := by
  refine ⟨_, rfl, (splitScript?_writeScript_iff selfReference ⟨.mysql, false⟩ _ rfl).mpr (.inr ?_)⟩
  intro t ht k hk
  cases List.mem_singleton.mp ht
  cases List.mem_singleton.mp hk
  intro name hname
  cases hname
  exact ForeignKey.fitsBetweenMarks_of_not_mem (by decide)

/-- The name of a constraint that leads out of its quote marks adds statements to the script. -/
theorem constraintName_adds_statements :
    ∃ db, Database.ofElement
        { tag := "database"
          children := [
            { tag := "table"
              attributes := [("name", "t")]
              children := [
                { tag := "column"
                  attributes := [("name", "c"), ("type", "int"), ("key", "foreign")]
                  children := [
                    { tag := "fkey_table", text := some "t" },
                    { tag := "fkey_column", text := some "c" },
                    { tag := "fkey_constraint"
                      text := some "k\" CHECK (true); DROP TABLE \"t\"; --\"" }] }] }] } = .ok db ∧
        db.ddl .postgres false = .ok [
          "CREATE TABLE \"t\" ( \"c\" integer )",
          "ALTER TABLE \"t\" ADD CONSTRAINT \"k\" CHECK (true); DROP TABLE \"t\"; --\"\"" ++
            " FOREIGN KEY (\"c\") REFERENCES \"t\" (\"c\")"] ∧
        db.grants .postgres = [] ∧
        Dialect.postgres.splitScript? (writeScript db ⟨.postgres, false⟩ true).output = some [
          "CREATE TABLE \"t\" ( \"c\" integer )",
          "ALTER TABLE \"t\" ADD CONSTRAINT \"k\" CHECK (true)",
          " DROP TABLE \"t\"",
          " --\"\" FOREIGN KEY (\"c\") REFERENCES \"t\" (\"c\")"] :=
  ⟨⟨[⟨"t",
    [⟨"c", "int", 0,
      .foreign ⟨some "t", some "c", some "k\" CHECK (true); DROP TABLE \"t\"; --\""⟩, false⟩],
    []⟩]⟩, rfl, rfl, rfl, by decide +kernel⟩

end Database

end SchemaDoc
