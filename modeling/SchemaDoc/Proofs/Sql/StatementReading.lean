import SchemaDoc.Proofs.Sql.ConstraintNames
import SchemaDoc.Proofs.Sql.Creating

/-!
# Statements that are read

A text is read as a statement from its front to its end: as creating a table with its columns and
keys, or as adding one key (`Dialect.statement?`). What creates a table is read as it was written,
up to what its dialect does not show. What adds a key is read exactly if the name of the constraint
makes a quotation between quote marks, and then has the name that is quoted
(`Statement.statement?_eq_some_iff`).
-/
namespace SchemaDoc

theorem mapM_eq_some_iff {α β : Type} {f : α → Option β} {l : List α} {r : List β} :
    l.mapM f = some r ↔ List.Forall₂ (fun a b => f a = some b) l r := by
  induction l generalizing r with
  | nil => cases r <;> simp
  | cons a l ih =>
    simp only [List.mapM_cons, Option.bind_eq_bind, Option.bind_eq_some_iff, Option.pure_def,
      Option.some.injEq, List.forall₂_cons_left_iff, ih]
    constructor
    · rintro ⟨b, hb, bs, hbs, rfl⟩
      exact ⟨b, bs, hb, hbs, rfl⟩
    · rintro ⟨b, bs, hb, hbs, rfl⟩
      exact ⟨b, hb, bs, hbs, rfl⟩

/-- The characters of a text that holds no quotation. -/
def plain? (l : List Symbol) : Option (List Char) :=
  l.mapM fun
    | .char c => some c
    | .quoted _ _ => none

theorem plain?_chars (w : String) : plain? (chars w) = some w.toList := by
  rw [plain?, mapM_eq_some_iff, chars, List.forall₂_map_left_iff, List.forall₂_same]
  exact fun _ _ => rfl

theorem takeWhile_append_of_kind {α : Type} {p : α → Bool} {a b : List α} (ha : ∀ c ∈ a, p c)
    (hb : ∀ c ∈ b, p c = false) : (a ++ b).takeWhile p = a ∧ (a ++ b).dropWhile p = b := by
  have hnone : b.takeWhile p = [] ∧ b.dropWhile p = b := by
    cases b with
    | nil => exact ⟨rfl, rfl⟩
    | cons c b => simp [hb c List.mem_cons_self]
  rw [List.takeWhile_append_of_pos ha, List.dropWhile_append_of_pos ha, hnone.1, hnone.2,
    List.append_nil]
  exact ⟨rfl, rfl⟩

/-- The type that a word tells in a dialect. -/
def ColumnType.ofWord? (d : Dialect) (word : List Char) : Option ColumnType :=
  match Text.strip? "varchar(".toList word with
  | some rest =>
    (rest.dropSuffix? [')']).bind fun digits =>
      if digits ≠ [] ∧ digits.all Char.isDigit then some (.varchar (Nat.ofDigitChars 10 digits 0))
      else none
  | none =>
    if word = "varchar".toList then some (.varchar 0)
    else if word = (if d = .mysql then "int" else "integer").toList then some .int
    else none

theorem ColumnType.ofWord?_text (d : Dialect) (t : ColumnType) :
    ofWord? d (t.text d).toList = some (t.shown d) := by
  cases t with
  | int => cases d <;> decide
  | varchar n =>
    cases n with
    | zero => cases d <;> decide
    | succ n =>
      have hdigits : ∀ c ∈ Nat.toDigits 10 (n + 1), c.isDigit := fun c hc =>
        Nat.isDigit_of_mem_toDigits (by decide) (by decide) hc
      have hend : (Nat.toDigits 10 (n + 1) ++ [')']).dropSuffix? [')'] =
          some (Nat.toDigits 10 (n + 1)) :=
        List.dropSuffix?_eq_some_iff.mpr ⟨_, rfl, beq_self_eq_true _⟩
      have hword : ((varchar (n + 1)).text d).toList =
          "varchar(".toList ++ (Nat.toDigits 10 (n + 1) ++ [')']) := by
        simp [text, String.toList_append]
      rw [hword, ofWord?, Text.strip?_append]
      simp only [hend, Option.bind_some]
      rw [if_pos ⟨Nat.toDigits_ne_nil, List.all_eq_true.mpr hdigits⟩, Nat.ofDigitChars_ten_toDigits]
      rfl

/-- Whether a column is primary and whether it is told to count up by itself, from what follows
its type. PostgreSQL tells the latter by the type. -/
def ending? (d : Dialect) (s : List Char) : Option (Bool × Bool) :=
  let key? := Text.strip? " PRIMARY KEY".toList s
  let rest := key?.getD s
  if rest = [] then some (key?.isSome, false)
  else if d = .mysql ∧ rest = " AUTO_INCREMENT".toList ∨
    d = .sqlite ∧ rest = " AUTOINCREMENT".toList then some (key?.isSome, true)
  else none

namespace ColumnDefinition

/-- The column of an item of a table, if it is one. -/
def ofItem? (d : Dialect) (item : List Symbol) : Option ColumnDefinition := do
  let (name, l) ← name? d item
  let s ← (plain? l).bind (Text.strip? [' '])
  let word := s.takeWhile isTypeCharacter
  let (isPrimaryKey, counts) ← ending? d (s.dropWhile isTypeCharacter)
  if d = .postgres ∧ word = "serial".toList then some ⟨name, .int, isPrimaryKey, true⟩
  else (ColumnType.ofWord? d word).map fun type => ⟨name, type, isPrimaryKey, counts⟩

def shown (d : Dialect) (c : ColumnDefinition) : ColumnDefinition :=
  { c with type := c.type.shown d }

theorem ending?_ending (d : Dialect) (c : ColumnDefinition) :
    ending? d (c.ending d).toList = some (c.isPrimaryKey, c.autoincrement && d != .postgres) := by
  rw [ending, autoincrementText.eq_def]
  cases d <;> cases c.isPrimaryKey <;> cases c.autoincrement <;> decide

theorem IsSpelledFrom.ofItem?_eq {d : Dialect} {c : ColumnDefinition} {item : List Symbol}
    (h : c.IsSpelledFrom d item) : ofItem? d item = some (c.shown d) := by
  obtain ⟨type, htype, rfl⟩ := h
  have htraits : (c.traits d type).toList = [' '] ++ (type.toList ++ (c.ending d).toList) := by
    simp [traits, ending, String.toList_append]
  obtain ⟨hword, hending⟩ := takeWhile_append_of_kind
    (List.all_eq_true.mp (all_isTypeCharacter_typeText htype)) (c.isTypeCharacter_of_mem_ending d)
  rw [ofItem?, name?_name]
  simp only [Option.bind_eq_bind, Option.bind_some, plain?_chars, htraits, Text.strip?_append,
    hword, hending, ending?_ending]
  rcases typeText_cases htype with ⟨⟨hauto, hd⟩, hint, rfl⟩ | ⟨hplain, rfl⟩
  · have hshown : c.shown d = ⟨c.name, .int, c.isPrimaryKey, true⟩ := by
      rw [shown, hint, hauto]
      rfl
    rw [if_pos ⟨hd, rfl⟩, hshown]
  · have hserial : (c.type.text d).toList ≠ "serial".toList := fun heq =>
      c.type.text_ne_serial d (String.toList_inj.mp heq)
    have hcounts : (c.autoincrement && d != .postgres) = c.autoincrement := by
      cases hauto : c.autoincrement with
      | false => rfl
      | true => simpa [hauto] using hplain
    rw [if_neg fun h => hserial h.2, ColumnType.ofWord?_text, Option.map_some, shown, hcounts]

end ColumnDefinition

namespace ForeignKey

/-- A key without its name, as it is known where it is declared in the statement for a table. -/
def inside (table : String) (k : ForeignKey) : ForeignKey :=
  { k with constraint? := none, table }

end ForeignKey

def NamedKey.foreignKey (k : NamedKey) : ForeignKey :=
  ⟨k.name?, k.entry.table, k.entry.column, k.entry.targetTable, k.entry.targetColumn⟩

namespace Dialect

/-- Whether a table is created only if there is none of its name. -/
def isGuarded (d : Dialect) (text : String) : Bool :=
  ((word? "CREATE TABLE " (d.symbols text.toList)).bind (word? "IF NOT EXISTS ")).isSome

/-- The statement that a text is. -/
def statement? (d : Dialect) (text : String) : Option Statement :=
  match d.creation? text with
  | some (table, items) => do
    let columns ← (items.filter fun item => (name? d item).isSome).mapM (ColumnDefinition.ofItem? d)
    let keys ← (items.filter fun item => (name? d item).isNone).mapM (namedKey? d table)
    return .createTable table (d.isGuarded text) columns (keys.map (·.foreignKey))
  | none => (d.namedAddition? text).map fun key => .addForeignKey key.foreignKey

end Dialect

namespace Statement

variable {d : Dialect}

/-- What a statement is read as. The type of a column is as its dialect shows it, a key inside a
table is read without its name, and one that is added with the name that its marks quote. -/
inductive IsReadAs (d : Dialect) : Statement → Statement → Prop
  | creation (name : String) (ifNotExists : Bool) (columns : List ColumnDefinition)
      (keys : List ForeignKey) :
      IsReadAs d (.createTable name ifNotExists columns keys)
        (.createTable name ifNotExists (columns.map (·.shown d)) (keys.map (·.inside name)))
  | addition {k : ForeignKey} {s? : Option String}
      (h : k.constraint?.map (ForeignKey.markedName d) = s?.map d.quote) :
      IsReadAs d (.addForeignKey k) (.addForeignKey { k with constraint? := s? })

variable {name text : String} {ifNotExists : Bool} {columns : List ColumnDefinition}
  {keys : List ForeignKey}

theorem isGuarded_createTable (h : (createTable name ifNotExists columns keys).text d = .ok text) :
    d.isGuarded text = ifNotExists := by
  obtain ⟨definitions, -, hspells⟩ := spells_createTable h
  rw [Dialect.isGuarded, hspells.symbols_eq, creationSymbols, word?_chars_append, Option.bind_some]
  cases ifNotExists with
  | true => rw [if_pos rfl, word?_chars_append, Option.isSome_some]
  | false =>
    have hnil : chars "" = [] := rfl
    rw [if_neg Bool.false_ne_true, hnil, List.nil_append, word?_name (by decide),
      Option.isSome_none]

theorem statement?_createTable
    (h : (createTable name ifNotExists columns keys).text d = .ok text) :
    d.statement? text = some (.createTable name ifNotExists (columns.map (·.shown d))
      (keys.map (·.inside name))) := by
  obtain ⟨definitions, hdefinitions, hcreation⟩ := creation?_createTable h
  have hcolumns : definitions.mapM (ColumnDefinition.ofItem? d) =
      some (columns.map (·.shown d)) := by
    rw [mapM_eq_some_iff, List.forall₂_map_right_iff]
    exact (hdefinitions.imp fun _ _ hitem => hitem.ofItem?_eq).flip
  have hkeys : (keys.map (·.symbols d)).mapM (namedKey? d name) =
      some (keys.map fun k => ⟨none, k.entryIn name⟩) := by
    rw [mapM_eq_some_iff, List.forall₂_map_left_iff, List.forall₂_map_right_iff, List.forall₂_same]
    exact fun k _ => k.namedKey?_symbols d name
  rw [Dialect.statement?, hcreation]
  simp only [filter_isSome_name?_items hdefinitions, filter_isNone_name?_items hdefinitions,
    hcolumns, hkeys, isGuarded_createTable h, Option.bind_eq_bind, Option.bind_some, List.map_map]
  rfl

theorem statement?_addForeignKey {k : ForeignKey} (h : (addForeignKey k).text d = .ok text)
    {r : Statement} :
    d.statement? text = some r ↔ (addForeignKey k).IsReadAs d r := by
  rw [Dialect.statement?, creation?_addForeignKey h, namedAddition?_addForeignKey h]
  simp only [Option.map_eq_some_iff, ForeignKey.namedKey?_eq_some_iff]
  constructor
  · rintro ⟨_, ⟨s?, hmarked, rfl⟩, rfl⟩
    exact .addition hmarked
  · rintro (_ | hmarked)
    exact ⟨_, ⟨_, hmarked, rfl⟩, rfl⟩

/-- A statement is read back from its text, up to what the text does not show. -/
theorem statement?_eq_some_iff {s r : Statement} (h : s.text d = .ok text) :
    d.statement? text = some r ↔ s.IsReadAs d r := by
  cases s with
  | createTable name ifNotExists columns keys =>
    rw [statement?_createTable h, Option.some.injEq]
    constructor
    · rintro rfl
      exact .creation name ifNotExists columns keys
    · rintro ⟨⟩
      rfl
  | addForeignKey k => exact statement?_addForeignKey h

/-- The name of a key that is added makes a quotation between quote marks. -/
def HasQuotedName (d : Dialect) : Statement → Prop
  | .createTable _ _ _ _ => True
  | .addForeignKey k => k.HasQuotedName d

theorem exists_isReadAs_iff {s : Statement} : (∃ r, s.IsReadAs d r) ↔ s.HasQuotedName d := by
  cases s with
  | createTable name ifNotExists columns keys =>
    exact iff_of_true ⟨_, .creation name ifNotExists columns keys⟩ trivial
  | addForeignKey k =>
    constructor
    · rintro ⟨_, ⟨⟩ | ⟨hmarked⟩⟩ name hname
      rw [hname, Option.map_some, eq_comm, Option.map_eq_some_iff] at hmarked
      obtain ⟨s, -, hs⟩ := hmarked
      exact ⟨s, hs.symm⟩
    · intro hname
      obtain ⟨s?, hmarked⟩ := ForeignKey.HasQuotedName.exists_map_eq hname
      exact ⟨_, .addition hmarked⟩

end Statement

end SchemaDoc
