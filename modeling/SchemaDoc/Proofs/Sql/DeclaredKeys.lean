import SchemaDoc.Proofs.Sql.Catalog
import SchemaDoc.Proofs.Sql.Spelling

/-!
# The foreign keys in a statement

The clauses for foreign keys are read from the text of a statement, wherever they stand outside of
quotations (`Dialect.declaredKeys`). The statement that creates a table has those that it is written
with and no others (`Statement.declaredKeys_createTable`), whatever its names look like.
-/
namespace SchemaDoc

theorem word?_ifNotExists_getD (given : Bool) (d : Dialect) (s : String) (l : List Symbol) :
    (word? "IF NOT EXISTS " (chars (if given then "IF NOT EXISTS " else "") ++ .name d s :: l)).getD
      (chars (if given then "IF NOT EXISTS " else "") ++ .name d s :: l) = .name d s :: l := by
  cases given with
  | true => rw [if_pos rfl, word?_chars_append, Option.getD_some]
  | false =>
    have hnil : chars "" = [] := rfl
    rw [if_neg Bool.false_ne_true, hnil, List.nil_append, word?_name (by decide), Option.getD_none]

/-- The clause for a key of a table at the front of a text, and what follows it. -/
def keyClause? (d : Dialect) (table : String) (l : List Symbol) :
    Option (KeyEntry × List Symbol) := do
  let l ← word? "FOREIGN KEY (" l
  let (column, l) ← name? d l
  let l ← word? ") REFERENCES " l
  let (targetTable, l) ← name? d l
  let l ← word? " (" l
  let (targetColumn, l) ← name? d l
  let l ← word? ")" l
  return (⟨table, column, targetTable, targetColumn⟩, l)

/-- The clauses for keys of a table that stand anywhere in a text. -/
def keyClauses (d : Dialect) (table : String) : List Symbol → List KeyEntry
  | [] => []
  | x :: l => ((keyClause? d table (x :: l)).map (·.1)).toList ++ keyClauses d table l

namespace Dialect

/-- The table that a statement creates, if it creates one. -/
def createdTable? (d : Dialect) (text : String) : Option String := do
  let l ← word? "CREATE TABLE " (d.symbols text.toList)
  let (table, _) ← name? d ((word? "IF NOT EXISTS " l).getD l)
  return table

/-- The table that a statement alters, if it alters one, and what is to be done to it. -/
def alteration? (d : Dialect) (text : String) : Option (String × List Symbol) := do
  let l ← word? "ALTER TABLE " (d.symbols text.toList)
  name? d l

/-- The clauses for keys in a statement. -/
def declaredKeys (d : Dialect) (text : String) : List KeyEntry :=
  match (d.createdTable? text).or ((d.alteration? text).map (·.1)) with
  | some table => keyClauses d table (d.symbols text.toList)
  | none => []

end Dialect

def KeyEntry.symbols (d : Dialect) (e : KeyEntry) : List Symbol :=
  ForeignKey.symbols d ⟨none, e.table, e.column, e.targetTable, e.targetColumn⟩

/-- A key as it is known where it is declared in the statement for a table. -/
def ForeignKey.entryIn (table : String) (k : ForeignKey) : KeyEntry :=
  ⟨table, k.column, k.targetTable, k.targetColumn⟩

theorem ForeignKey.entryIn_table (k : ForeignKey) : k.entryIn k.table = k.entry :=
  rfl

theorem keyClause?_eq_some_iff {d : Dialect} {table : String} {e : KeyEntry} {l m : List Symbol} :
    keyClause? d table l = some (e, m) ↔ e.table = table ∧ l = e.symbols d ++ m := by
  obtain ⟨t, c, tt, tc⟩ := e
  simp only [keyClause?, Option.bind_eq_bind, Option.bind_eq_some_iff, Prod.exists, Option.pure_def,
    Option.some.injEq, word?_eq_some_iff, name?_eq_some_iff, Prod.mk.injEq, KeyEntry.mk.injEq,
    KeyEntry.symbols, ForeignKey.symbols, List.append_assoc, List.cons_append]
  constructor
  · rintro ⟨_, rfl, _, _, rfl, _, rfl, _, _, rfl, _, rfl, _, _, rfl, _, rfl,
      ⟨rfl, rfl, rfl, rfl⟩, rfl⟩
    exact ⟨rfl, rfl⟩
  · rintro ⟨rfl, rfl⟩
    exact ⟨_, rfl, _, _, rfl, _, rfl, _, _, rfl, _, rfl, _, _, rfl, _, rfl,
      ⟨rfl, rfl, rfl, rfl⟩, rfl⟩

theorem KeyEntry.eq_of_symbols_eq {d : Dialect} {e f : KeyEntry} (htable : e.table = f.table)
    (h : e.symbols d = f.symbols d) : e = f := by
  have he : keyClause? d f.table (e.symbols d) = some (e, []) :=
    keyClause?_eq_some_iff.mpr ⟨htable, (List.append_nil _).symm⟩
  have hf : keyClause? d f.table (f.symbols d) = some (f, []) :=
    keyClause?_eq_some_iff.mpr ⟨rfl, (List.append_nil _).symm⟩
  rw [h, hf] at he
  cases he
  rfl

theorem keyClause?_quoted (d : Dialect) (table : String) (mark : Char) (s : List Char)
    (l : List Symbol) : keyClause? d table (.quoted mark s :: l) = none := by
  simp [keyClause?, word?, stripChars?]

theorem keyClause?_of_ne {c : Char} (h : c ≠ 'F') (d : Dialect) (table : String) (l : List Symbol) :
    keyClause? d table (.char c :: l) = none := by
  simp [keyClause?, word?, stripChars?, Ne.symm h]

/-- A piece of a text declares keys, and no clause begins in it that ends behind it. -/
def Declares (d : Dialect) (table : String) (piece : List Symbol) (keys : List KeyEntry) : Prop :=
  ∀ l, keyClauses d table (piece ++ l) = keys ++ keyClauses d table l

namespace Declares

variable {d : Dialect} {table : String} {l m : List Symbol} {a b : List KeyEntry}

theorem append (hl : Declares d table l a) (hm : Declares d table m b) :
    Declares d table (l ++ m) (a ++ b) := by
  intro rest
  rw [List.append_assoc, hl, hm, List.append_assoc]

theorem nil : Declares d table [] [] :=
  fun _ => rfl

theorem cons_name (s : String) (h : Declares d table l a) :
    Declares d table (.name d s :: l) a := by
  intro rest
  rw [List.cons_append, Symbol.name, keyClauses, keyClause?_quoted, h]
  rfl

theorem chars {w : String} (h : 'F' ∉ w.toList) : Declares d table (chars w) [] := by
  intro rest
  rw [SchemaDoc.chars]
  generalize w.toList = s at h ⊢
  induction s with
  | nil => rfl
  | cons c s ih =>
    rw [List.mem_cons, not_or] at h
    rw [List.map_cons, List.cons_append, keyClauses, keyClause?_of_ne (Ne.symm h.1), ih h.2]
    rfl

theorem references : Declares d table (SchemaDoc.chars ") REFERENCES ") [] := by
  intro rest
  simp [SchemaDoc.chars, keyClauses, keyClause?, word?, stripChars?]

theorem ifNotExists (given : Bool) :
    Declares d table (SchemaDoc.chars (if given then "IF NOT EXISTS " else "")) [] := by
  intro rest
  cases given <;> simp [SchemaDoc.chars, keyClauses, keyClause?, word?, stripChars?]

theorem clause (k : ForeignKey) : Declares d table (k.symbols d) [k.entryIn table] := by
  intro rest
  let tail := SchemaDoc.chars "OREIGN KEY (" ++ .name d k.column ::
    (SchemaDoc.chars ") REFERENCES " ++ .name d k.targetTable ::
      (SchemaDoc.chars " (" ++ .name d k.targetColumn :: SchemaDoc.chars ")"))
  have htail : Declares d table tail [] := by
    have hlast : Declares d table (.name d k.targetColumn :: SchemaDoc.chars ")") [] :=
      cons_name k.targetColumn (chars (by decide))
    have hcolumn := cons_name k.targetTable ((chars (w := " (") (by decide)).append hlast)
    have htable := cons_name k.column (references.append hcolumn)
    exact (chars (by decide)).append htable
  have hsymbols : k.symbols d = .char 'F' :: tail := by
    simp [tail, ForeignKey.symbols, SchemaDoc.chars]
  have hclause : keyClause? d table (k.symbols d ++ rest) = some (k.entryIn table, rest) :=
    keyClause?_eq_some_iff.mpr ⟨rfl, rfl⟩
  rw [hsymbols, List.cons_append] at hclause ⊢
  rw [keyClauses, hclause, htail]
  rfl

theorem intercalate (hl : Declares d table l []) {items : List (List Symbol)}
    {keys : List (List KeyEntry)} (h : List.Forall₂ (Declares d table) items keys) :
    Declares d table (l.intercalate items) keys.flatten := by
  induction h with
  | nil => exact nil
  | @cons item a items keys hitem hrest ih =>
    cases hrest with
    | nil => simpa using hitem
    | cons hnext hrest =>
      rw [List.intercalate_cons_cons]
      have hall := (hitem.append hl).append ih
      simpa using hall

end Declares

/-- Types are written in small letters, digits and brackets. -/
def isTypeCharacter (c : Char) : Bool :=
  c.isLower || c.isDigit || c == '(' || c == ')'

theorem not_mem_of_all_isTypeCharacter {s : List Char} (h : s.all isTypeCharacter) {c : Char}
    (hc : isTypeCharacter c = false) : c ∉ s := by
  intro hmem
  rw [List.all_eq_true.mp h c hmem] at hc
  cases hc

theorem all_isTypeCharacter_toString (n : Nat) : (toString n).toList.all isTypeCharacter := by
  rw [Nat.toString_eq_repr, Nat.toList_repr, List.all_eq_true]
  intro c hc
  simp [isTypeCharacter, Nat.isDigit_of_mem_toDigits (by decide) (by decide) hc]

theorem ColumnType.all_isTypeCharacter_text (d : Dialect) (t : ColumnType) :
    (t.text d).toList.all isTypeCharacter := by
  cases t with
  | int => cases d <;> decide
  | varchar n =>
    cases n with
    | zero => cases d <;> decide
    | succ n =>
      rw [ColumnType.text, String.toList_append, String.toList_append, List.all_append,
        List.all_append, all_isTypeCharacter_toString, Bool.and_true]
      decide

namespace ColumnDefinition

theorem all_isTypeCharacter_typeText {d : Dialect} {c : ColumnDefinition} {type : String}
    (h : c.typeText d = .ok type) : type.toList.all isTypeCharacter := by
  rw [typeText] at h
  split_ifs at h
  · cases htype : c.type with
    | int =>
      rw [htype] at h
      cases h
      decide
    | varchar n =>
      rw [htype] at h
      cases h
  · cases h
    exact c.type.all_isTypeCharacter_text d

theorem not_mem_traits {d : Dialect} {c : ColumnDefinition} {type : String}
    (h : c.typeText d = .ok type) : 'F' ∉ (c.traits d type).toList := by
  have hkey : 'F' ∉ (if c.isPrimaryKey then " PRIMARY KEY" else "").toList := by
    split_ifs <;> decide
  have hauto : 'F' ∉ (c.autoincrementText d).toList := by
    cases d <;> rw [autoincrementText.eq_def] <;> split_ifs <;> decide
  have hblank : 'F' ∉ " ".toList := by decide
  have htype : 'F' ∉ type.toList :=
    not_mem_of_all_isTypeCharacter (all_isTypeCharacter_typeText h) (by decide)
  simp only [traits, String.toList_append, List.mem_append, not_or]
  exact ⟨hblank, htype, hkey, hauto⟩

theorem IsSpelledFrom.declares {d : Dialect} {c : ColumnDefinition} {item : List Symbol}
    (h : c.IsSpelledFrom d item) (table : String) : Declares d table item [] := by
  obtain ⟨type, htype, rfl⟩ := h
  exact Declares.cons_name c.name (.chars (not_mem_traits htype))

end ColumnDefinition

namespace Statement

theorem createdTable?_createTable {d : Dialect} {name : String} {ifNotExists : Bool}
    {columns : List ColumnDefinition} {keys : List ForeignKey} {text : String}
    (h : (createTable name ifNotExists columns keys).text d = .ok text) :
    d.createdTable? text = some name := by
  obtain ⟨definitions, -, hspells⟩ := spells_createTable h
  rw [Dialect.createdTable?, hspells.symbols_eq, creationSymbols, word?_chars_append,
    Option.bind_eq_bind, Option.bind_some, word?_ifNotExists_getD, name?_name]
  rfl

theorem declares_creationSymbols (d : Dialect) (name : String) (ifNotExists : Bool) {table : String}
    {items : List (List Symbol)} {a : List KeyEntry}
    (h : Declares d table ((chars ", ").intercalate items) a) :
    Declares d table (creationSymbols d name ifNotExists items) a := by
  have hlist := (Declares.chars (w := " ( ") (by decide)).append
    (h.append (Declares.chars (w := " )") (by decide)))
  have htable := (Declares.ifNotExists ifNotExists).append (Declares.cons_name name hlist)
  have hall := (Declares.chars (w := "CREATE TABLE ") (by decide)).append htable
  rwa [List.append_nil] at hall

/-- All clauses of a table stand in the statement that creates it, and no others. -/
theorem declaredKeys_createTable {d : Dialect} {name : String} {ifNotExists : Bool}
    {columns : List ColumnDefinition} {keys : List ForeignKey} {text : String}
    (h : (createTable name ifNotExists columns keys).text d = .ok text) :
    d.declaredKeys text = keys.map (·.entryIn name) := by
  obtain ⟨definitions, hdefinitions, hspells⟩ := spells_createTable h
  have hcolumns : List.Forall₂ (Declares d name) definitions (columns.map fun _ => []) := by
    rw [List.forall₂_map_right_iff]
    exact (hdefinitions.imp fun _ _ hc => hc.declares name).flip
  have hclauses : List.Forall₂ (Declares d name) (keys.map (·.symbols d))
      (keys.map fun k => [k.entryIn name]) := by
    rw [List.forall₂_map_left_iff, List.forall₂_map_right_iff, List.forall₂_same]
    exact fun k _ => Declares.clause k
  have hflat :
    ((columns.map fun _ => []) ++ keys.map fun k : ForeignKey => [k.entryIn name]).flatten =
      keys.map (·.entryIn name) := by
    rw [List.flatten_append, ← List.flatMap_def, ← List.flatMap_def, List.map_eq_flatMap]
    simp
  have hitems : Declares d name ((chars ", ").intercalate (definitions ++ keys.map (·.symbols d)))
      (keys.map (·.entryIn name)) := by
    rw [← hflat]
    exact (Declares.chars (by decide)).intercalate (List.rel_append hcolumns hclauses)
  have hread := declares_creationSymbols d name ifNotExists hitems []
  rw [List.append_nil] at hread
  rw [Dialect.declaredKeys, createdTable?_createTable h, hspells.symbols_eq]
  simpa [keyClauses] using hread

end Statement

end SchemaDoc
