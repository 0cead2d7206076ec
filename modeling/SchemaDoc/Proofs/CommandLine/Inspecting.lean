import SchemaDoc.Proofs.CommandLine.Checking
import SchemaDoc.Proofs.Json.Indentation
import SchemaDoc.Proofs.Sql.Reordering

/-!
# Inspecting a file table by table

A file can be inspected as a whole, or one table at a time. If no two tables have one name, both
show the same (`whole_is_shown_table_by_table`): as text the tables stand one behind the other, and
as JSON they stand in a list, each further in.
-/
namespace SchemaDoc

/-! ### The frame -/

/-- The JSON text of a database around those of its tables. -/
def framed (tables : List String) : String :=
  if tables = [] then "\x7b\n  \"tables\": []\n\x7d"
  else "\x7b\n  \"tables\": [\n" ++ (",\n".intercalate tables ++ "\n  ]\n\x7d")

theorem Database.jsonText_eq_framed (db : Database) :
    db.jsonText = framed (db.tables.map fun t => indentLines "    " t.record.toJson.pretty) := by
  have hlines : Json.itemTexts 2 (db.record.tables.map (·.toJson)) =
      db.tables.map fun t => indentLines "    " t.record.toJson.pretty := by
    rw [Json.itemTexts_eq_map, Database.record, List.map_map, List.map_map]
    exact List.map_congr_left fun t _ => Json.indent_append_text 2 t.record.toJson
  have htext : db.jsonText =
      Json.bracketed "\x7b" "\x7d" 0 [Json.indent 1 ++ Json.quoted "tables" ++ ": " ++
        Json.bracketed "[" "]" 1
          (db.tables.map fun t => indentLines "    " t.record.toJson.pretty)] := by
    rw [← hlines]
    rfl
  rw [htext]
  generalize (db.tables.map fun t => indentLines "    " t.record.toJson.pretty) = tables
  cases tables with
  | nil => decide
  | cons table tables =>
    -- The tables stand on lines of their own, so the frame around them ends and begins with a
    -- line end.
    have hfront :
        "\x7b" ++ "\n" ++ (Json.indent 1 ++ Json.quoted "tables" ++ ": " ++ ("[" ++ "\n")) =
          "\x7b\n  \"tables\": [\n" := by decide
    have hback : "\n" ++ Json.indent 1 ++ "]" ++ ("\n" ++ Json.indent 0 ++ "\x7d") =
        "\n  ]\n\x7d" := by decide
    rw [Json.bracketed, if_neg (by simp), Json.bracketed, if_neg (by simp),
      String.intercalate_singleton, framed, if_neg (List.cons_ne_nil _ _), ← hfront, ← hback]
    simp only [String.append_assoc, -String.reduceAppend]

/-! ### Asking for a table -/

theorem longOption?_of_not_mem {option : List Char} (h : '=' ∉ option) (value : List Char) :
    longOption? ('-' :: '-' :: (option ++ '=' :: value)) =
      some (String.ofList option, some (String.ofList value)) := by
  have hname : ∀ c ∈ option, (c != '=') = true := by
    intro c hc
    rw [bne_iff_ne]
    rintro rfl
    exact h hc
  rw [longOption?, List.takeWhile_append_of_pos hname, List.dropWhile_append_of_pos hname]
  simp

/-- The value of an option can be brought along in one argument, whatever it is. -/
theorem readItems?_of_valued {names : OptionNames} {argument option value : String}
    (hargument : argument.toList = '-' :: '-' :: (option.toList ++ '=' :: value.toList))
    (h : '=' ∉ option.toList) (hvalued : option ∈ names.valued) (rest : List String) :
    readItems? names (argument :: rest) =
      (readItems? names rest).map (.value option value :: ·) := by
  have hdashes : argument ≠ "--" := by
    rintro rfl
    simp at hargument
  have hoption : looksLikeOption argument.toList := by
    rw [hargument]
    rfl
  rw [readItems?, if_neg hdashes, if_pos hoption, hargument, longOption?_of_not_mem h]
  simp [hvalued]

theorem readItems?_of_operand {names : OptionNames} {argument : String}
    (h : looksLikeOption argument.toList = false) (rest : List String) :
    readItems? names (argument :: rest) = (readItems? names rest).map (.operand argument :: ·) := by
  have hdashes : argument ≠ "--" := by
    rintro rfl
    revert h
    decide
  rw [readItems?, if_neg hdashes, if_neg (by simp [h])]

theorem Command.inspect?_eq_some_iff {arguments : List String} {file : String}
    {table? : Option String} {format : Format} :
    inspect? arguments = some (.inspect file table? format) ↔
      ∃ items format?, readItems? ⟨["table", "format"], []⟩ arguments = some items ∧
        onlyFile? items = some file ∧
        optionalValue? "table" some items = some table? ∧
        optionalValue? "format" Format.ofName? items = some format? ∧
          format?.getD .text = format := by
  simp only [inspect?, Option.bind_eq_bind, Option.bind_eq_some_iff, Option.pure_def,
    Option.some.injEq, inspect.injEq]
  constructor
  · rintro ⟨items, hitems, _, hfile, _, htable, format?, hformat, rfl, rfl, hname⟩
    exact ⟨items, format?, hitems, hfile, htable, hformat, hname⟩
  · rintro ⟨items, format?, hitems, hfile, htable, hformat, hname⟩
    exact ⟨items, hitems, file, hfile, table?, htable, format?, hformat, rfl, rfl, hname⟩

theorem optionalValue?_eq_none_iff {name : String} {items : List Item} :
    optionalValue? name some items = some none ↔ items.filterMap (·.valueOf? name) = [] := by
  rw [optionalValue?]
  split
  next h => simp [h]
  next v h => simp [h]
  next hnone hone => simpa using hnone

/-- With a table asked for behind the file, the command is the same but for this table alone. Its
name may be any text, as it begins behind the first equals sign. -/
theorem ofArguments?_of_table {path : String} {options : List String} {format : Format}
    (hpath : looksLikeOption path.toList = false)
    (h : Command.ofArguments? ("inspect" :: path :: options) = some (.inspect path none format))
    (name : String) :
    Command.ofArguments? ("inspect" :: path :: ("--table=" ++ name) :: options) =
      some (.inspect path (some name) format) := by
  obtain ⟨items, format?, hitems, hfile, htable, hformat, hname⟩ :=
    Command.inspect?_eq_some_iff.mp h
  rw [readItems?_of_operand hpath, Option.map_eq_some_iff] at hitems
  obtain ⟨items, hitems, rfl⟩ := hitems
  have hargument : ("--table=" ++ name).toList =
      '-' :: '-' :: ("table".toList ++ '=' :: name.toList) := by
    simp
  refine Command.inspect?_eq_some_iff.mpr
    ⟨.operand path :: .value "table" name :: items, format?, ?_, hfile, ?_, hformat, hname⟩
  · rw [readItems?_of_operand hpath, readItems?_of_valued hargument (by decide) (by simp), hitems]
    rfl
  · have hnone : items.filterMap (·.valueOf? "table") = [] := optionalValue?_eq_none_iff.mp htable
    have hone : (Item.operand path :: .value "table" name :: items).filterMap (·.valueOf? "table") =
        [name] := by
      have hvalue : (Item.value "table" name).valueOf? "table" = some name := by
        simp [Item.valueOf?]
      rw [List.filterMap_cons_none rfl, List.filterMap_cons_some hvalue, hnone]
    rw [optionalValue?, hone]
    rfl

/-! ### The runs -/

theorem LoadsFile.run_inspect {arguments : List String} {files : Files} {env : Environment}
    {path : String} {db : Database} {table? : Option String} {format : Format} {output : String}
    (h : LoadsFile files env path db)
    (hargs : Command.ofArguments? arguments = some (.inspect path table? format))
    (hshown : showTables db format table? = .ok output) :
    runArguments arguments files env = .success output := by
  obtain ⟨⟨seen, hseen⟩, hmodel⟩ := h
  simp only [runArguments, hseen, hargs, Command.run, loadFile_of_model hmodel, hshown]

theorem showTables_of_mem {db : Database} (hnames : db.tableNames.Nodup) {t : Table}
    (ht : t ∈ db.tables) :
    showTables db .text (some t.name) = .ok t.summary ∧
      showTables db .json (some t.name) = .ok (t.record.toJson.pretty ++ "\n") := by
  have hfound : db.findTable? t.name = some t :=
    (Database.findTable?_eq_some_iff hnames).mpr ⟨ht, rfl⟩
  constructor <;> simp [showTables, selectTables, hfound, bind, Except.bind, pure, Except.pure]

/-- Inspecting a file shows all its tables, in their order, as they are shown one at a time. -/
theorem whole_is_shown_table_by_table {files : Files} {env : Environment} {path : String}
    {db : Database} (hload : LoadsFile files env path db) (hnames : db.tableNames.Nodup)
    (hpath : looksLikeOption path.toList = false) (options : List String) :
    (Command.ofArguments? ("inspect" :: path :: options) = some (.inspect path none .text) →
      ∃ outputs, List.Forall₂ (fun name output =>
          runArguments ("inspect" :: path :: ("--table=" ++ name) :: options) files env =
            .success output)
          db.tableNames outputs ∧
        runArguments ("inspect" :: path :: options) files env = .success (String.join outputs)) ∧
    (Command.ofArguments? ("inspect" :: path :: options) = some (.inspect path none .json) →
      ∃ outputs, List.Forall₂ (fun name output =>
          runArguments ("inspect" :: path :: ("--table=" ++ name) :: options) files env =
            .success (output ++ "\n"))
          db.tableNames outputs ∧
        runArguments ("inspect" :: path :: options) files env =
          .success (framed (outputs.map (indentLines "    ")) ++ "\n")) := by
  have hsingle : ∀ {format : Format} {t : Table} {output : String},
      Command.ofArguments? ("inspect" :: path :: options) = some (.inspect path none format) →
      showTables db format (some t.name) = .ok output →
      runArguments ("inspect" :: path :: ("--table=" ++ t.name) :: options) files env =
          .success output :=
    fun hargs => hload.run_inspect (ofArguments?_of_table hpath hargs _)
  constructor
  · intro hargs
    refine ⟨db.tables.map (·.summary), ?_, hload.run_inspect hargs rfl⟩
    rw [Database.tableNames, List.forall₂_map_left_iff, List.forall₂_map_right_iff,
      List.forall₂_same]
    exact fun t ht => hsingle hargs (showTables_of_mem hnames ht).1
  · intro hargs
    refine ⟨db.tables.map (·.record.toJson.pretty), ?_, ?_⟩
    · rw [Database.tableNames, List.forall₂_map_left_iff, List.forall₂_map_right_iff,
        List.forall₂_same]
      exact fun t ht => hsingle hargs (showTables_of_mem hnames ht).2
    · have hshown : showTables db .json none = .ok (db.jsonText ++ "\n") := rfl
      rw [hload.run_inspect hargs hshown, db.jsonText_eq_framed, List.map_map, Function.comp_def]

/-- A document with a table whose name has a line end and a quote, and one with a column. -/
def cornerText : String :=
  "<d><table name=\"a&#10;&quot;\"/><table name=\"b\"><column name=\"c\" type=\"int\"/></table></d>"

def cornerDatabase : Database where
  tables := [⟨"a\n\"", [], []⟩, ⟨"b", [⟨"c", "int", 0, .none, false⟩], []⟩]

def cornerFiles : Files := fun path =>
  if path = "corner.xml" then .ok cornerText.toUTF8 else .error .missing

theorem whole_is_shown_table_by_table_corner :
    LoadsFile cornerFiles [] "corner.xml" cornerDatabase ∧
      cornerDatabase.tableNames = ["a\n\"", "b"] ∧
      (∃ outputs, List.Forall₂ (fun name output =>
          runArguments ["inspect", "corner.xml", "--table=" ++ name] cornerFiles [] =
            .success output)
          cornerDatabase.tableNames outputs ∧
        runArguments ["inspect", "corner.xml"] cornerFiles [] = .success (String.join outputs)) ∧
      ∃ outputs, List.Forall₂ (fun name output =>
          runArguments ["inspect", "corner.xml", "--table=" ++ name, "--format=json"]
            cornerFiles [] =
            .success (output ++ "\n")) cornerDatabase.tableNames outputs ∧
        runArguments ["inspect", "corner.xml", "--format=json"] cornerFiles [] =
          .success (framed (outputs.map (indentLines "    ")) ++ "\n") := by
  have hload : LoadsFile cornerFiles [] "corner.xml" cornerDatabase :=
    ⟨⟨[], rfl⟩, cornerText, ⟨cornerText.toUTF8, rfl, fromUTF8?_toUTF8 cornerText⟩,
      by decide +kernel⟩
  have hnames : cornerDatabase.tableNames.Nodup := by decide
  have hpath : looksLikeOption "corner.xml".toList = false := by decide
  refine ⟨hload, rfl, ?_, ?_⟩
  · exact (whole_is_shown_table_by_table hload hnames hpath []).1 (by decide +kernel)
  · exact (whole_is_shown_table_by_table hload hnames hpath ["--format=json"]).2 (by decide +kernel)

end SchemaDoc
