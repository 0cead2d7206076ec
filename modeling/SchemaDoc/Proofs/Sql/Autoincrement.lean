import SchemaDoc.Proofs.Sql.Creating
import SchemaDoc.Proofs.Sql.GrantWords
import SchemaDoc.Proofs.Sql.PrimaryKeys

/-!
# Columns that count up by themselves

SQLite takes the word AUTOINCREMENT at one place only, directly behind the primary key of an integer
column. A column is written with its type, with its key if it is primary, and with this word if it
counts up, each without regard to the others (`ColumnDefinition.IsSpelledFrom.hasWordBehind_iff`).
So the word is at its place in all statements exactly if each column that counts up is an integer
and primary (`Database.autoincrement_is_legal_iff`), and a schema document can have columns that are
not (`Database.looseCounter_is_written`).
-/
namespace SchemaDoc

/-- A word stands behind `front` in a text, and is not part of a longer word. -/
def HasWordBehind (front : List Symbol) (w : String) (l : List Symbol) : Prop :=
  ∃ rest, l = front ++ (chars w ++ rest) ∧ front.getLast?.any Symbol.isInWord = false ∧
    rest.head?.any Symbol.isInWord = false

theorem append_chars_autoincrement (l m : List Symbol) :
    l ++ (chars "AUTOINCREMENT" ++ m) =
      (l ++ chars "A") ++ .char 'U' :: (chars "TOINCREMENT" ++ m) := by
  simp [chars]

theorem not_hasWordBehind_of_not_mem {l : List Symbol} (h : .char 'U' ∉ l) (front : List Symbol) :
    ¬HasWordBehind front "AUTOINCREMENT" l := by
  rintro ⟨rest, rfl, -⟩
  rw [append_chars_autoincrement] at h
  exact h (List.mem_append_right _ List.mem_cons_self)

/-- The word has one `U`, so behind a text without this letter it is found only once. -/
theorem hasWordBehind_append_iff {l : List Symbol} (hU : .char 'U' ∉ l)
    (hend : l.getLast?.any Symbol.isInWord = false) (front : List Symbol) :
    HasWordBehind front "AUTOINCREMENT" (l ++ chars "AUTOINCREMENT") ↔ front = l := by
  constructor
  · rintro ⟨rest, heq, -⟩
    have hfront : .char 'U' ∉ l ++ chars "A" := by
      rw [List.mem_append, not_or, char_mem_chars_iff]
      exact ⟨hU, by decide⟩
    have hrest : .char 'U' ∉ chars "TOINCREMENT" ++ [] := by
      rw [List.append_nil, char_mem_chars_iff]
      decide
    have hsplit := append_chars_autoincrement l []
    rw [List.append_nil (chars "AUTOINCREMENT"), heq, append_chars_autoincrement, eq_comm,
      List.append_cons_inj_of_notMem hfront hrest] at hsplit
    exact (List.append_cancel_right hsplit.1).symm
  · rintro rfl
    exact ⟨[], by rw [List.append_nil], hend, rfl⟩

namespace ColumnType

theorem text_eq_integer_iff {t : ColumnType} : t.text .sqlite = "integer" ↔ t = .int := by
  constructor
  · intro h
    cases t with
    | int => rfl
    | varchar n =>
      have hhead := head?_text .sqlite (.varchar n)
      rw [h] at hhead
      cases hhead
  · rintro rfl
    rfl

theorem text_append_key_eq_iff {t : ColumnType} {isPrimaryKey : Bool} :
    t.text .sqlite ++ ((if isPrimaryKey then " PRIMARY KEY" else "") ++ " ") =
      "integer" ++ " PRIMARY KEY " ↔
      t = .int ∧ isPrimaryKey := by
  have hkey : (if isPrimaryKey then " PRIMARY KEY" else "") ++ " " = " PRIMARY KEY " ↔
      isPrimaryKey := by
    cases isPrimaryKey <;> decide
  have htype := List.all_eq_true.mp (t.all_isTypeCharacter_text .sqlite)
  have hinteger : "integer".toList.all isTypeCharacter := by decide
  have hending : ((if isPrimaryKey then " PRIMARY KEY" else "") ++ " ").toList.any isTypeCharacter =
      false := by
    cases isPrimaryKey <;> decide
  have hprimary : " PRIMARY KEY ".toList.any isTypeCharacter = false := by decide
  have hsplit := append_eq_append_iff_of_kind isTypeCharacter htype (List.all_eq_true.mp hinteger)
    (fun x hx => Bool.eq_false_iff.mpr (List.any_eq_false.mp hending x hx))
    (fun x hx => Bool.eq_false_iff.mpr (List.any_eq_false.mp hprimary x hx))
  rw [← String.toList_append, ← String.toList_append, String.toList_inj, String.toList_inj,
    String.toList_inj, text_eq_integer_iff, hkey] at hsplit
  exact hsplit

end ColumnType

namespace ColumnDefinition

/-- The definition of a column as it is without the word. -/
def unmarked (c : ColumnDefinition) : List Symbol :=
  .name .sqlite c.name ::
    chars (" " ++ (c.type.text .sqlite ++ if c.isPrimaryKey then " PRIMARY KEY" else ""))

theorem IsSpelledFrom.eq_unmarked_append {c : ColumnDefinition} {item : List Symbol}
    (h : c.IsSpelledFrom .sqlite item) :
    item = c.unmarked ++ if c.autoincrement then chars " " ++ chars "AUTOINCREMENT" else [] := by
  obtain ⟨type, htype, rfl⟩ := h
  rw [typeText, if_neg (by simp)] at htype
  cases htype
  have htraits : c.traits .sqlite (c.type.text .sqlite) =
      (" " ++ (c.type.text .sqlite ++ if c.isPrimaryKey then " PRIMARY KEY" else "")) ++
        c.autoincrementText .sqlite := by
    simp only [traits, String.append_assoc]
  have hmark : chars (c.autoincrementText .sqlite) =
      if c.autoincrement then chars " " ++ chars "AUTOINCREMENT" else [] := by
    rw [autoincrementText]
    split_ifs <;> rfl
  rw [htraits, chars_append, hmark]
  rfl

theorem not_mem_unmarked (c : ColumnDefinition) : .char 'U' ∉ c.unmarked := by
  have hblank : 'U' ∉ " ".toList := by decide
  have htype : 'U' ∉ (c.type.text .sqlite).toList :=
    not_mem_of_all_isTypeCharacter (c.type.all_isTypeCharacter_text .sqlite) (by decide)
  have hkey : 'U' ∉ (if c.isPrimaryKey then " PRIMARY KEY" else "").toList := by
    split_ifs <;> decide
  simp only [unmarked, Symbol.name, List.mem_cons, char_mem_chars_iff, String.toList_append,
    List.mem_append, reduceCtorEq, false_or, not_or]
  exact ⟨hblank, htype, hkey⟩

/-- A column has the word exactly if it counts up, and has it behind everything else. -/
theorem IsSpelledFrom.hasWordBehind_iff {c : ColumnDefinition} {item : List Symbol}
    (h : c.IsSpelledFrom .sqlite item) (front : List Symbol) :
    HasWordBehind front "AUTOINCREMENT" item ↔
      c.autoincrement ∧ front = c.unmarked ++ chars " " := by
  rw [h.eq_unmarked_append]
  cases c.autoincrement with
  | false =>
    simpa using not_hasWordBehind_of_not_mem c.not_mem_unmarked front
  | true =>
    have hU : .char 'U' ∉ c.unmarked ++ chars " " := by
      rw [List.mem_append, not_or, char_mem_chars_iff]
      exact ⟨c.not_mem_unmarked, by decide⟩
    have hend : (c.unmarked ++ chars " ").getLast?.any Symbol.isInWord = false := by
      rw [List.getLast?_append]
      rfl
    rw [if_pos rfl, ← List.append_assoc, hasWordBehind_append_iff hU hend]
    simp

theorem exists_unmarked_eq_iff (c : ColumnDefinition) :
    (∃ column, c.unmarked ++ chars " " = .name .sqlite column :: chars " integer PRIMARY KEY ") ↔
      c.type = .int ∧ c.isPrimaryKey := by
  have hitem : c.unmarked ++ chars " " =
    .name .sqlite c.name :: chars (" " ++ (c.type.text .sqlite ++
      ((if c.isPrimaryKey then " PRIMARY KEY" else "") ++ " "))) := by
    simp only [unmarked, List.cons_append, ← chars_append, String.append_assoc]
  have hwords : " integer PRIMARY KEY " = " " ++ ("integer" ++ " PRIMARY KEY ") := by decide
  rw [hitem, hwords, ← ColumnType.text_append_key_eq_iff]
  constructor
  · rintro ⟨column, h⟩
    rw [List.cons.injEq, chars_inj, String.append_right_inj] at h
    exact h.2
  · intro h
    exact ⟨c.name, by rw [h]⟩

end ColumnDefinition

theorem ForeignKey.not_hasWordBehind (k : ForeignKey) (front : List Symbol) :
    ¬HasWordBehind front "AUTOINCREMENT" (k.symbols .sqlite) := by
  apply not_hasWordBehind_of_not_mem
  simp only [symbols, Symbol.name, List.mem_append, List.mem_cons, char_mem_chars_iff, reduceCtorEq,
    false_or, not_or]
  decide

/-- A statement has the word only where SQLite takes it: each AUTOINCREMENT stands in the item of a
column, directly behind the primary key of an integer. -/
def AutoincrementsLegally (text : String) : Prop :=
  ∃ table items, Dialect.sqlite.creation? text = some (table, items) ∧
    ∀ item ∈ items, ∀ front, HasWordBehind front "AUTOINCREMENT" item →
      ∃ column, front = .name .sqlite column :: chars " integer PRIMARY KEY "

namespace Column

/-- A column for which SQLite has the word: it does not count up, or it is an integer and
primary. -/
def HasLegalCounter (c : Column) : Prop :=
  c.autoincrement → c.typeName = "int" ∧ c.isPrimaryKey

instance (c : Column) : Decidable c.HasLegalCounter :=
  inferInstanceAs (Decidable (_ → _))

theorem hasLegalCounter_iff {c : Column} {e : ColumnDefinition} (h : c.definition = .ok e) :
    (e.autoincrement → e.type = .int ∧ e.isPrimaryKey) ↔ c.HasLegalCounter := by
  obtain ⟨type, htype, rfl⟩ := definition_eq_ok_iff.mp h
  have hword : type = .int ↔ c.typeName = "int" := by
    rw [← ColumnType.word_of_ofWord htype]
    cases type <;> simp [ColumnType.word]
  rw [HasLegalCounter, hword]

end Column

/-- The item of a column has the word exactly if the column counts up, and has it behind everything
else. -/
def IsMarkedFor (c : Column) (item : List Symbol) : Prop :=
  ∃ e, c.definition = .ok e ∧
    ∀ front, HasWordBehind front "AUTOINCREMENT" item ↔
      e.autoincrement ∧ front = e.unmarked ++ chars " "

theorem IsMarkedFor.legal_iff {c : Column} {item : List Symbol} (h : IsMarkedFor c item) :
    (∀ front, HasWordBehind front "AUTOINCREMENT" item →
      ∃ column, front = .name .sqlite column :: chars " integer PRIMARY KEY ") ↔
        c.HasLegalCounter := by
  obtain ⟨e, he, hmarked⟩ := h
  rw [← Column.hasLegalCounter_iff he, ← e.exists_unmarked_eq_iff]
  simp [hmarked]

namespace Table

theorem isMarkedFor_of_writeCreation {ifNotExists : Bool} {t : Table} {text : String}
    (h : t.writeCreation .sqlite ifNotExists = .ok text) :
    ∃ definitions keys, Dialect.sqlite.creation? text = some (t.name, definitions ++ keys) ∧
      List.Forall₂ IsMarkedFor t.columns definitions ∧
      ∀ item ∈ keys, ∀ front, ¬HasWordBehind front "AUTOINCREMENT" item := by
  obtain ⟨columns, hcolumns, htext⟩ := exists_columns_of_writeCreation h
  obtain ⟨definitions, hdefinitions, hcreation⟩ := Statement.creation?_createTable htext
  have hmarked : List.Forall₂ IsMarkedFor t.columns definitions :=
    forall₂_trans hcolumns hdefinitions fun c e item he hitem => ⟨e, he, hitem.hasWordBehind_iff⟩
  exact ⟨definitions, _, hcreation, hmarked, List.forall_mem_map.mpr fun k _ => k.not_hasWordBehind⟩

theorem autoincrementsLegally_iff {ifNotExists : Bool} {t : Table} {text : String}
    (h : t.writeCreation .sqlite ifNotExists = .ok text) :
    AutoincrementsLegally text ↔ ∀ c ∈ t.columns, c.HasLegalCounter := by
  obtain ⟨definitions, keys, hcreation, hmarked, hkeys⟩ := isMarkedFor_of_writeCreation h
  rw [← forall_mem_iff_of_forall₂ hmarked fun c item => IsMarkedFor.legal_iff,
    AutoincrementsLegally, hcreation]
  constructor
  · rintro ⟨table, items, heq, hlegal⟩
    cases heq
    exact fun item hitem => hlegal item (List.mem_append_left _ hitem)
  · intro hlegal
    exact ⟨_, _, rfl, List.forall_mem_append.mpr ⟨hlegal, fun item hitem front hword =>
      absurd hword (hkeys item hitem front)⟩⟩

end Table

namespace Database

/-- In SQLite there is one statement for each table. The item of each column has the word
AUTOINCREMENT exactly if the column counts up, behind its name, its type and its key if it has one,
and nothing else has the word. So all statements have it where SQLite takes it exactly if each
column that counts up is an integer and primary. -/
theorem autoincrement_is_legal_iff {db : Database} {ifNotExists : Bool} {texts : List String}
    (h : db.ddl .sqlite ifNotExists = .ok texts) :
    List.Forall₂ (fun t text => ∃ definitions keys,
        Dialect.sqlite.creation? text = some (t.name, definitions ++ keys) ∧
        List.Forall₂ IsMarkedFor t.columns definitions ∧
        (∀ item ∈ keys, ∀ front, ¬HasWordBehind front "AUTOINCREMENT" item) ∧
        (AutoincrementsLegally text ↔ ∀ c ∈ t.columns, c.HasLegalCounter)) db.tables texts ∧
      ((∀ text ∈ texts, AutoincrementsLegally text) ↔
        ∀ t ∈ db.tables, ∀ c ∈ t.columns, c.HasLegalCounter) := by
  obtain ⟨creations, additions, rfl, hcreations, hadditions⟩ := exists_forall₂_of_ddl h
  rw [Dialect.inlinesForeignKeys, if_pos rfl, List.forall₂_nil_left_iff] at hadditions
  rw [hadditions, List.append_nil]
  constructor
  · refine hcreations.imp fun t text ht => ?_
    obtain ⟨definitions, keys, hcreation, hmarked, hkeys⟩ := Table.isMarkedFor_of_writeCreation ht
    exact ⟨definitions, keys, hcreation, hmarked, hkeys, Table.autoincrementsLegally_iff ht⟩
  · exact forall_mem_iff_of_forall₂ hcreations fun t text => Table.autoincrementsLegally_iff

/-- Tables with counters at their place, and with names that look as if they had others. -/
def meters : Database where
  tables := [
    ⟨"AUTOINCREMENT", [
      ⟨"a\" integer AUTOINCREMENT, \"b", "varchar", 8, .none, false⟩,
      ⟨"n", "int", 4, .primary, true⟩], []⟩,
    ⟨"u", [
      ⟨"id", "int", 0, .primary, true⟩,
      ⟨"m", "int", 0, .foreign ⟨some " AUTOINCREMENT ", some "n", none⟩, false⟩], []⟩]

theorem autoincrement_is_legal_meters :
    ∃ texts, meters.ddl .sqlite true = .ok texts ∧ ∀ text ∈ texts, AutoincrementsLegally text := by
  obtain ⟨texts, h⟩ : ∃ texts, meters.ddl .sqlite true = .ok texts := ⟨_, rfl⟩
  exact ⟨texts, h, (autoincrement_is_legal_iff h).2.mpr (by decide)⟩

/-- A column that counts up without being primary has the word where SQLite does not take it. -/
theorem looseCounter_is_written :
    ∃ db text, Database.ofElement
          { tag := "database"
            children := [
              { tag := "table"
                attributes := [("name", "t")]
                children := [
                  { tag := "column", attributes := [("name", "c"), ("type", "int"),
                    ("autoincrement", "true")] }] }] } =
        .ok db ∧
      db.ddl .sqlite false = .ok [text] ∧
        text = "CREATE TABLE \"t\" ( \"c\" integer AUTOINCREMENT )" ∧
      ¬AutoincrementsLegally text := by
  let t : Table := ⟨"t", [⟨"c", "int", 0, .none, true⟩], []⟩
  let text := "CREATE TABLE \"t\" ( \"c\" integer AUTOINCREMENT )"
  have h : t.writeCreation .sqlite false = .ok text := by decide +kernel
  have hddl : Database.ddl .sqlite false ⟨[t]⟩ = .ok [text] := by
    rw [Database.ddl, List.mapM_cons, h]
    rfl
  refine ⟨⟨[t]⟩, text, rfl, hddl, rfl, ?_⟩
  rw [Table.autoincrementsLegally_iff h]
  decide

end Database

end SchemaDoc
