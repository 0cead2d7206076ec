import SchemaDoc.Proofs.Sql.Script
import SchemaDoc.Proofs.Sql.Symbols

/-!
# Statements as symbols

Each kind of statement is spelled from a list of symbols in which its names stand as quotations and
everything else as characters (`Dialect.Spells`), so these symbols are what is read from its text.
One part of a statement is not spelled in this way, the naming of a constraint; what stands before
it is read from the front of the statement, and what stands behind it from the end.
-/
namespace SchemaDoc

def chars (w : String) : List Symbol :=
  w.toList.map .char

theorem endsPlain_chars (w : String) : EndsPlain (chars w) := by
  intro x hx
  obtain ⟨c, -, rfl⟩ := List.mem_map.mp (List.mem_of_getLast? hx)
  rfl

theorem beginsPlain_chars_append {w : String} (hw : w.toList ≠ []) (l : List Symbol) :
    BeginsPlain (chars w ++ l) := by
  rw [BeginsPlain, chars]
  cases h : w.toList with
  | nil => exact absurd h hw
  | cons c s => simp [Symbol.isQuoted]

def stripChars? : List Char → List Symbol → Option (List Symbol)
  | [], l => some l
  | c :: w, .char d :: l => if c = d then stripChars? w l else none
  | _, _ => none

def word? (w : String) (l : List Symbol) : Option (List Symbol) :=
  stripChars? w.toList l

/-- What a quotation at the front of a text holds that `mark` opens, and what follows it. -/
def quotation? (mark : Char) : List Symbol → Option (String × List Symbol)
  | .quoted opening s :: l => if opening = mark then some (String.ofList s, l) else none
  | _ => none

def name? (d : Dialect) (l : List Symbol) : Option (String × List Symbol) :=
  quotation? d.quoteMark l

theorem word?_eq_some_iff {w : String} {l m : List Symbol} :
    word? w l = some m ↔ l = chars w ++ m := by
  rw [word?, chars]
  induction w.toList generalizing l with
  | nil => simp [stripChars?]
  | cons c w ih =>
    cases l with
    | nil => simp [stripChars?]
    | cons x l =>
      cases x with
      | quoted mark s => simp [stripChars?]
      | char e => by_cases h : c = e <;> simp [stripChars?, h, ih, eq_comm]

theorem word?_chars_append (w : String) (l : List Symbol) : word? w (chars w ++ l) = some l :=
  word?_eq_some_iff.mpr rfl

theorem quotation?_eq_some_iff {mark : Char} {l m : List Symbol} {s : String} :
    quotation? mark l = some (s, m) ↔ l = .quoted mark s.toList :: m := by
  cases l with
  | nil => simp [quotation?]
  | cons x l =>
    cases x with
    | char c => simp [quotation?]
    | quoted opening t =>
      by_cases h : opening = mark
      · simp [quotation?, h, String.ext_iff]
      · simp [quotation?, h]

theorem quotation?_quoted (mark : Char) (s : String) (l : List Symbol) :
    quotation? mark (.quoted mark s.toList :: l) = some (s, l) :=
  quotation?_eq_some_iff.mpr rfl

theorem name?_eq_some_iff {d : Dialect} {l m : List Symbol} {s : String} :
    name? d l = some (s, m) ↔ l = .name d s :: m :=
  quotation?_eq_some_iff

theorem name?_name (d : Dialect) (s : String) (l : List Symbol) :
    name? d (.name d s :: l) = some (s, l) :=
  quotation?_quoted d.quoteMark s l

theorem word?_name {w : String} (hw : w.toList ≠ []) (d : Dialect) (s : String) (l : List Symbol) :
    word? w (.name d s :: l) = none := by
  rw [word?]
  cases h : w.toList with
  | nil => exact absurd h hw
  | cons c w => rfl

namespace Dialect

theorem isLegible_chars (d : Dialect) {w : String} (h : isPlain w) : d.IsLegible (chars w) := by
  rw [isPlain, List.all_eq_true] at h
  constructor
  · intro x hx
    obtain ⟨c, hc, rfl⟩ := List.mem_map.mp hx
    simp [Symbol.isKnown, pairs?_of_plain (by simpa using h c hc)]
  · rw [chars, List.isChain_map]
    exact (List.pairwise_of_forall fun _ _ => rfl).isChain

theorem spelled_map_char (d : Dialect) (s : List Char) : d.spelled (s.map .char) = s := by
  rw [spelled, List.flatMap_map]
  exact List.flatMap_singleton' s

theorem spelled_chars (d : Dialect) (w : String) : d.spelled (chars w) = w.toList :=
  d.spelled_map_char w.toList

theorem spelled_name_cons (d : Dialect) (s : String) (l : List Symbol) :
    d.spelled (.name d s :: l) = (d.quote s).toList ++ d.spelled l := by
  rw [← Symbol.spell_name]
  rfl

/-- A text that is spelled from symbols which can be read from it. -/
structure Spells (d : Dialect) (l : List Symbol) (s : String) : Prop where
  text : s.toList = d.spelled l
  legible : d.IsLegible l

namespace Spells

variable {d : Dialect} {l m : List Symbol} {s t : String}

theorem append (hs : d.Spells l s) (ht : d.Spells m t) (h : EndsPlain l ∨ BeginsPlain m) :
    d.Spells (l ++ m) (s ++ t) where
  text := by rw [String.toList_append, hs.text, ht.text, spelled_append]
  legible := hs.legible.append ht.legible h

theorem plain {w : String} (h : isPlain w) : d.Spells (chars w) w where
  text := (d.spelled_chars w).symm
  legible := d.isLegible_chars h

theorem plain_append {w : String} (h : isPlain w) (hs : d.Spells l s) :
    d.Spells (chars w ++ l) (w ++ s) :=
  (plain h).append hs (.inl (endsPlain_chars w))

theorem quote (name : String) : d.Spells [.name d name] (d.quote name) where
  text := by rw [spelled, List.flatMap_singleton, Symbol.spell_name]
  legible := ⟨by simp [Symbol.isKnown, Symbol.name, d.pairs?_quoteMark], .singleton _⟩

theorem quote_append (name : String) (hs : d.Spells l s) (h : BeginsPlain l) :
    d.Spells (.name d name :: l) (d.quote name ++ s) :=
  (quote name).append hs (.inr h)

theorem intercalate (hs : d.Spells l s) (hl : EndsPlain l) {items : List (List Symbol)}
    {texts : List String}
    (h : List.Forall₂ (fun item text => d.Spells item text ∧ EndsPlain item) items texts) :
    d.Spells (l.intercalate items) (s.intercalate texts) ∧ EndsPlain (l.intercalate items) := by
  induction h with
  | nil => exact ⟨⟨rfl, ⟨by simp, .nil⟩⟩, by simp [EndsPlain]⟩
  | @cons item text items texts hitem hrest ih =>
    cases hrest with
    | nil => simpa using hitem
    | cons hnext hrest =>
      rw [List.intercalate_cons_cons, String.intercalate_cons_cons]
      have hfront := hitem.1.append hs (.inl hitem.2)
      have hplain := endsPlain_append hitem.2 hl
      exact ⟨hfront.append ih.1 (.inl hplain), endsPlain_append hplain ih.2⟩

theorem symbols_eq (hs : d.Spells l s) : d.symbols s.toList = l := by
  rw [hs.text, symbols_spelled hs.legible]

theorem symbols_append_eq (hs : d.Spells l s) (hl : EndsPlain l) (rest : String) :
    d.symbols (s ++ rest).toList = l ++ d.symbols rest.toList := by
  rw [String.toList_append, hs.text, symbols_spelled_append hs.legible (.inr hl)]

theorem symbolsFromEnd_append_eq (hs : d.Spells l s) (hl : BeginsPlain l) (before : String) :
    d.symbolsFromEnd (before ++ s).toList = d.symbolsFromEnd before.toList ++ l := by
  rw [String.toList_append, hs.text, symbolsFromEnd_append_spelled hs.legible hl]

end Spells

end Dialect

namespace ForeignKey

/-- What the clause for a key is spelled from. -/
def symbols (d : Dialect) (k : ForeignKey) : List Symbol :=
  chars "FOREIGN KEY (" ++ .name d k.column :: (chars ") REFERENCES " ++ .name d k.targetTable ::
    (chars " (" ++ .name d k.targetColumn :: chars ")"))

theorem spells_clause (d : Dialect) (k : ForeignKey) : d.Spells (k.symbols d) (k.clause d) := by
  have htext : k.clause d =
    "FOREIGN KEY (" ++ (d.quote k.column ++ (") REFERENCES " ++ (d.quote k.targetTable ++
      (" (" ++ (d.quote k.targetColumn ++ ")"))))) := by
    unfold clause
    simp only [String.append_assoc]
  rw [htext]
  apply Dialect.Spells.plain_append (by decide)
  apply Dialect.Spells.quote_append _ _ (beginsPlain_chars_append (by decide) _)
  apply Dialect.Spells.plain_append (by decide)
  apply Dialect.Spells.quote_append _ _ (beginsPlain_chars_append (by decide) _)
  apply Dialect.Spells.plain_append (by decide)
  apply Dialect.Spells.quote_append _ (.plain (by decide))
  simpa using beginsPlain_chars_append (w := ")") (by decide) []

theorem endsPlain_symbols (d : Dialect) (k : ForeignKey) : EndsPlain (k.symbols d) := by
  simp [symbols, chars, EndsPlain, Symbol.isQuoted]

end ForeignKey

namespace ColumnDefinition

def traits (d : Dialect) (c : ColumnDefinition) (type : String) : String :=
  " " ++ (type ++ ((if c.isPrimaryKey then " PRIMARY KEY" else "") ++ c.autoincrementText d))

theorem isPlain_traits {d : Dialect} {c : ColumnDefinition} {type : String}
    (h : c.typeText d = .ok type) : isPlain (c.traits d type) := by
  have hkey : isPlain (if c.isPrimaryKey then " PRIMARY KEY" else "") := by split_ifs <;> decide
  have hblank : isPlain " " := by decide
  rw [traits, isPlain_append, isPlain_append, isPlain_append, isPlain_of_typeText h, hkey, hblank,
    isPlain_autoincrementText]
  rfl

/-- What the definition of a column is spelled from. -/
def IsSpelledFrom (d : Dialect) (c : ColumnDefinition) (item : List Symbol) : Prop :=
  ∃ type, c.typeText d = .ok type ∧ item = .name d c.name :: chars (c.traits d type)

theorem spells_text {d : Dialect} {c : ColumnDefinition} {text : String} (h : c.text d = .ok text) :
    ∃ item, c.IsSpelledFrom d item ∧ d.Spells item text ∧ EndsPlain item := by
  rw [ColumnDefinition.text, bind_eq_ok_iff] at h
  obtain ⟨type, htype, h⟩ := h
  cases h
  have htraits : (c.traits d type).toList ≠ [] := by simp [traits]
  have htext : d.quote c.name ++ " " ++ type ++ (if c.isPrimaryKey then " PRIMARY KEY" else "") ++
      c.autoincrementText d = d.quote c.name ++ c.traits d type := by
    simp only [traits, String.append_assoc]
  rw [htext]
  refine ⟨_, ⟨type, htype, rfl⟩, ?_, ?_⟩
  · apply Dialect.Spells.quote_append _ (.plain (isPlain_traits htype))
    simpa using beginsPlain_chars_append htraits []
  · have hlast := endsPlain_chars (c.traits d type)
    rw [EndsPlain, List.getLast?_cons_of_ne_nil (by simpa [chars] using htraits)]
    exact hlast

theorem spells_texts {d : Dialect} {columns : List ColumnDefinition} {texts : List String}
    (h : columns.mapM (·.text d) = .ok texts) :
    ∃ items, List.Forall₂ (·.IsSpelledFrom d) columns items ∧
      List.Forall₂ (fun item text => d.Spells item text ∧ EndsPlain item) items texts := by
  rw [mapM_eq_ok_iff] at h
  induction h with
  | nil => exact ⟨[], .nil, .nil⟩
  | cons htext _ ih =>
    obtain ⟨item, hfrom, hspells⟩ := spells_text htext
    obtain ⟨items, hitems, htexts⟩ := ih
    exact ⟨item :: items, .cons hfrom hitems, .cons hspells htexts⟩

end ColumnDefinition

namespace Statement

def creationSymbols (d : Dialect) (name : String) (ifNotExists : Bool)
    (items : List (List Symbol)) : List Symbol :=
  chars "CREATE TABLE " ++ (chars (if ifNotExists then "IF NOT EXISTS " else "") ++ .name d name ::
    (chars " ( " ++ ((chars ", ").intercalate items ++ chars " )")))

theorem spells_createTable {d : Dialect} {name : String} {ifNotExists : Bool}
    {columns : List ColumnDefinition} {keys : List ForeignKey} {text : String}
    (h : (createTable name ifNotExists columns keys).text d = .ok text) :
    ∃ definitions, List.Forall₂ (·.IsSpelledFrom d) columns definitions ∧
      d.Spells (creationSymbols d name ifNotExists (definitions ++ keys.map (·.symbols d)))
        text := by
  rw [Statement.text, bind_eq_ok_iff] at h
  obtain ⟨texts, htexts, h⟩ := h
  obtain ⟨definitions, hdefinitions, hspells⟩ := ColumnDefinition.spells_texts htexts
  refine ⟨definitions, hdefinitions, ?_⟩
  have hclauses : List.Forall₂ (fun item text => d.Spells item text ∧ EndsPlain item)
    (keys.map (·.symbols d)) (keys.map (·.clause d)) := by
    rw [List.forall₂_map_left_iff, List.forall₂_map_right_iff, List.forall₂_same]
    exact fun k _ => ⟨k.spells_clause d, k.endsPlain_symbols d⟩
  have hcomma : isPlain ", " := by decide
  have hguard : isPlain (if ifNotExists then "IF NOT EXISTS " else "") := by split_ifs <;> decide
  have hitems := (Dialect.Spells.plain hcomma).intercalate (endsPlain_chars ", ")
    (List.rel_append hspells hclauses)
  cases h
  simp only [String.append_assoc]
  apply Dialect.Spells.plain_append (by decide)
  apply Dialect.Spells.plain_append hguard
  apply Dialect.Spells.quote_append _ _ (beginsPlain_chars_append (by decide) _)
  apply Dialect.Spells.plain_append (by decide)
  exact hitems.1.append (.plain (by decide)) (.inl hitems.2)

def alterationSymbols (d : Dialect) (table : String) : List Symbol :=
  chars "ALTER TABLE " ++ .name d table :: chars " ADD "

theorem text_addForeignKey {d : Dialect} {k : ForeignKey} {text : String}
    (h : (addForeignKey k).text d = .ok text) :
    ∃ front, text = front ++ (k.constraintText d ++ k.clause d) ∧
      d.Spells (alterationSymbols d k.table) front ∧
      EndsPlain (alterationSymbols d k.table) := by
  refine ⟨"ALTER TABLE " ++ (d.quote k.table ++ " ADD "), ?_, ?_, ?_⟩
  · cases h
    simp only [String.append_assoc]
  · apply Dialect.Spells.plain_append (by decide)
    apply Dialect.Spells.quote_append _ (.plain (by decide))
    simpa using beginsPlain_chars_append (w := " ADD ") (by decide) []
  · simp [alterationSymbols, chars, EndsPlain, Symbol.isQuoted]

end Statement

end SchemaDoc
