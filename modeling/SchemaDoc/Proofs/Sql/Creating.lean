import SchemaDoc.Proofs.Sql.Items
import SchemaDoc.Proofs.Sql.KeyPartition

/-!
# What creates a table tells the table apart

Two tables are created by the same text exactly if the text is meant for the same table: its name,
and of each column the name, the type as the dialect shows it, and whether it is primary and counts
up by itself, and the keys where these are declared inside (`Table.writeCreation_eq_iff`). No name
can pass for a part of the statement around it, so nothing has to be asked of names.
-/
namespace SchemaDoc

theorem append_eq_append_iff_of_kind {α : Type} (p : α → Bool) {a b x y : List α}
    (ha : ∀ c ∈ a, p c) (hb : ∀ c ∈ b, p c) (hx : ∀ c ∈ x, p c = false)
    (hy : ∀ c ∈ y, p c = false) : a ++ x = b ++ y ↔ a = b ∧ x = y := by
  constructor
  · intro h
    have hfront : ∀ l m : List α, (∀ c ∈ l, p c) → (∀ c ∈ m, p c = false) →
        (l ++ m).filter p = l := by
      intro l m hl hm
      have hnone : m.filter p = [] := List.filter_eq_nil_iff.mpr fun c hc => by simp [hm c hc]
      rw [List.filter_append, List.filter_eq_self.mpr hl, hnone, List.append_nil]
    have heq : a = b := by rw [← hfront a x ha hx, h, hfront b y hb hy]
    rw [heq] at h
    exact ⟨heq, List.append_cancel_left h⟩
  · rintro ⟨rfl, rfl⟩
    rfl

theorem forall₂_iff_of_forall₂ {α β γ δ : Type} {R : α → γ → Prop} {S : β → δ → Prop}
    {P : α → β → Prop} {Q : γ → δ → Prop} {a : List α} {b : List β} {c : List γ} {e : List δ}
    (hac : List.Forall₂ R a c) (hbe : List.Forall₂ S b e)
    (h : ∀ w x y z, R w y → S x z → (Q y z ↔ P w x)) : List.Forall₂ Q c e ↔ List.Forall₂ P a b := by
  induction hac generalizing b e with
  | nil => cases hbe <;> simp
  | cons hwy _ ih =>
    cases hbe with
    | nil => simp
    | cons hxz hrest => rw [List.forall₂_cons, List.forall₂_cons, h _ _ _ _ hwy hxz, ih hrest]

theorem Symbol.name_inj {d : Dialect} {s t : String} : name d s = name d t ↔ s = t := by
  rw [name, name, quoted.injEq, and_iff_right rfl, String.toList_inj]

theorem chars_inj {v w : String} : chars v = chars w ↔ v = w := by
  rw [chars, chars, List.map_inj_right fun _ _ h => Symbol.char.inj h, String.toList_inj]

namespace ColumnType

def shown (d : Dialect) : ColumnType → ColumnType
  | .varchar 0 => if d = .mysql then .varchar 255 else .varchar 0
  | t => t

theorem text_shown (d : Dialect) (t : ColumnType) : (t.shown d).text d = t.text d := by
  cases t with
  | int => rfl
  | varchar n =>
    cases n with
    | zero => cases d <;> decide
    | succ n => rfl

theorem head?_text (d : Dialect) (t : ColumnType) :
    (t.text d).toList.head? = some (match t with | .int => 'i' | .varchar _ => 'v') := by
  cases t with
  | int => cases d <;> decide
  | varchar n =>
    cases n with
    | zero => cases d <;> decide
    | succ n => simp [text, String.toList_append]

theorem text_ne_serial (d : Dialect) (t : ColumnType) : t.text d ≠ "serial" := by
  intro h
  have hhead := t.head?_text d
  rw [h] at hhead
  cases t <;> cases hhead

theorem text_varchar_inj {d : Dialect} {m n : Nat} :
    (varchar (m + 1)).text d = (varchar (n + 1)).text d ↔ m = n := by
  constructor
  · intro h
    simp only [text, String.append_left_inj, String.append_right_inj] at h
    have hdigits := congrArg (Nat.ofDigitChars 10 ·.toList 0) h
    simp only [Nat.toString_eq_repr, Nat.toList_repr, Nat.ofDigitChars_ten_toDigits] at hdigits
    exact Nat.succ.inj hdigits
  · rintro rfl
    rfl

theorem text_varchar_eq_iff {d : Dialect} {n : Nat} :
    (varchar 0).text d = (varchar (n + 1)).text d ↔ d = .mysql ∧ n = 254 := by
  cases d with
  | mysql =>
    have hlength : (varchar 0).text .mysql = (varchar (254 + 1)).text .mysql := by decide
    rw [hlength, text_varchar_inj]
    simp [eq_comm]
  | postgres => simp [text, ← String.toList_inj]
  | sqlite => simp [text, ← String.toList_inj]

theorem text_eq_iff {d : Dialect} {s t : ColumnType} :
    s.text d = t.text d ↔ s.shown d = t.shown d := by
  constructor
  · intro h
    cases s with
    | int =>
      cases t with
      | int => rfl
      | varchar n =>
        have hhead := head?_text d (varchar n)
        rw [← h, head?_text] at hhead
        cases hhead
    | varchar m =>
      cases t with
      | int =>
        have hhead := head?_text d (varchar m)
        rw [h, head?_text] at hhead
        cases hhead
      | varchar n =>
        cases m with
        | zero =>
          cases n with
          | zero => rfl
          | succ n =>
            obtain ⟨rfl, rfl⟩ := text_varchar_eq_iff.mp h
            rfl
        | succ m =>
          cases n with
          | zero =>
            obtain ⟨rfl, rfl⟩ := text_varchar_eq_iff.mp h.symm
            rfl
          | succ n => rw [text_varchar_inj.mp h]
  · intro h
    rw [← text_shown, h, text_shown]

end ColumnType

namespace ColumnDefinition

/-- Columns that a dialect defines in the same words. -/
structure WrittenAlike (d : Dialect) (b c : ColumnDefinition) : Prop where
  name : b.name = c.name
  type : b.type.shown d = c.type.shown d
  isPrimaryKey : b.isPrimaryKey = c.isPrimaryKey
  autoincrement : b.autoincrement = c.autoincrement

def ending (d : Dialect) (c : ColumnDefinition) : String :=
  (if c.isPrimaryKey then " PRIMARY KEY" else "") ++ c.autoincrementText d

theorem isTypeCharacter_of_mem_ending (d : Dialect) (c : ColumnDefinition) :
    ∀ x ∈ (c.ending d).toList, isTypeCharacter x = false := by
  have hnone : (c.ending d).toList.any isTypeCharacter = false := by
    cases d <;> rw [ending, autoincrementText.eq_def] <;> split_ifs <;> decide
  simpa using hnone

/-- In PostgreSQL a column that counts up by itself has a type of its own, and no word for it behind
the type. -/
theorem ending_eq_iff {d : Dialect} {b c : ColumnDefinition} :
    b.ending d = c.ending d ↔
      b.isPrimaryKey = c.isPrimaryKey ∧ (d ≠ .postgres → b.autoincrement = c.autoincrement) := by
  rw [ending, ending, autoincrementText.eq_def, autoincrementText.eq_def]
  cases d <;> cases b.isPrimaryKey <;> cases c.isPrimaryKey <;> cases b.autoincrement <;>
    cases c.autoincrement <;> decide

theorem typeText_cases {d : Dialect} {c : ColumnDefinition} {s : String}
    (h : c.typeText d = .ok s) :
    ((c.autoincrement ∧ d = .postgres) ∧ c.type = .int ∧ s = "serial") ∨
      (¬(c.autoincrement ∧ d = .postgres) ∧ s = c.type.text d) := by
  rw [typeText] at h
  split_ifs at h with hserial
  · cases htype : c.type with
    | int =>
      rw [htype] at h
      cases h
      exact .inl ⟨hserial, rfl, rfl⟩
    | varchar n =>
      rw [htype] at h
      cases h
  · cases h
    exact .inr ⟨hserial, rfl⟩

theorem typeText_eq_iff {d : Dialect} {b c : ColumnDefinition} {s t : String}
    (hs : b.typeText d = .ok s) (ht : c.typeText d = .ok t)
    (hauto : d ≠ .postgres → b.autoincrement = c.autoincrement) :
    s = t ↔ b.type.shown d = c.type.shown d ∧ b.autoincrement = c.autoincrement := by
  rcases typeText_cases hs with ⟨hb, hbint, rfl⟩ | ⟨hb, rfl⟩
  · rcases typeText_cases ht with ⟨hc, hcint, rfl⟩ | ⟨hc, rfl⟩
    · simp [hbint, hcint, hb.1, hc.1]
    · have hne : b.autoincrement ≠ c.autoincrement := fun heq => hc ⟨heq ▸ hb.1, hb.2⟩
      simp [hne, (c.type.text_ne_serial d).symm]
  · rcases typeText_cases ht with ⟨hc, hcint, rfl⟩ | ⟨hc, rfl⟩
    · have hne : b.autoincrement ≠ c.autoincrement := fun heq => hb ⟨heq ▸ hc.1, hc.2⟩
      simp [hne, b.type.text_ne_serial d]
    · have heq : b.autoincrement = c.autoincrement := by
        by_cases hd : d = .postgres
        · simp_all
        · exact hauto hd
      rw [ColumnType.text_eq_iff, and_iff_left heq]

theorem IsSpelledFrom.eq_iff {d : Dialect} {b c : ColumnDefinition} {x y : List Symbol}
    (hx : b.IsSpelledFrom d x) (hy : c.IsSpelledFrom d y) : x = y ↔ b.WrittenAlike d c := by
  obtain ⟨s, hs, rfl⟩ := hx
  obtain ⟨t, ht, rfl⟩ := hy
  have htraits : b.traits d s = c.traits d t ↔ s = t ∧ b.ending d = c.ending d := by
    have htype : ∀ {e : ColumnDefinition} {type : String}, e.typeText d = .ok type →
        ∀ x ∈ type.toList, isTypeCharacter x :=
          fun h => List.all_eq_true.mp (all_isTypeCharacter_typeText h)
    have hsplit := append_eq_append_iff_of_kind isTypeCharacter (htype hs) (htype ht)
      (b.isTypeCharacter_of_mem_ending d) (c.isTypeCharacter_of_mem_ending d)
    rw [traits, traits, String.append_right_inj, ← ending, ← ending, ← String.toList_inj,
      String.toList_append, String.toList_append, hsplit, String.toList_inj, String.toList_inj]
  have hitems : Symbol.name d b.name :: chars (b.traits d s) =
    Symbol.name d c.name :: chars (c.traits d t) ↔
      b.name = c.name ∧ b.traits d s = c.traits d t := by
    rw [List.cons_eq_cons, Symbol.name_inj, chars_inj]
  rw [hitems, htraits, ending_eq_iff]
  constructor
  · rintro ⟨hname, htext, hkey, hauto⟩
    obtain ⟨htype, hauto⟩ := (typeText_eq_iff hs ht hauto).mp htext
    exact ⟨hname, htype, hkey, hauto⟩
  · rintro ⟨hname, htype, hkey, hauto⟩
    exact ⟨hname, (typeText_eq_iff hs ht fun _ => hauto).mpr ⟨htype, hauto⟩, hkey, fun _ => hauto⟩

end ColumnDefinition

namespace Column

/-- Columns that a dialect defines in the same words, each of a type that it can write. -/
structure WrittenAlike (d : Dialect) (b c : Column) : Prop where
  name : b.name = c.name
  type : ∃ s t, b.columnType = .ok s ∧ c.columnType = .ok t ∧ s.shown d = t.shown d
  isPrimaryKey : b.isPrimaryKey = c.isPrimaryKey
  autoincrement : b.autoincrement = c.autoincrement

theorem definition_eq_ok_iff {c : Column} {e : ColumnDefinition} :
    c.definition = .ok e ↔ ∃ type, c.columnType = .ok type ∧
      e = ⟨c.name, type, c.isPrimaryKey, c.autoincrement⟩ := by
  rw [definition, bind_eq_ok_iff]
  constructor
  · rintro ⟨type, htype, h⟩
    cases h
    exact ⟨type, htype, rfl⟩
  · rintro ⟨type, htype, rfl⟩
    exact ⟨type, htype, rfl⟩

theorem writtenAlike_iff_of_definition {d : Dialect} {b c : Column} {e f : ColumnDefinition}
    (he : b.definition = .ok e) (hf : c.definition = .ok f) :
    e.WrittenAlike d f ↔ b.WrittenAlike d c := by
  obtain ⟨s, hs, rfl⟩ := definition_eq_ok_iff.mp he
  obtain ⟨t, ht, rfl⟩ := definition_eq_ok_iff.mp hf
  constructor
  · rintro ⟨hname, htype, hkey, hauto⟩
    exact ⟨hname, ⟨s, t, hs, ht, htype⟩, hkey, hauto⟩
  · rintro ⟨hname, ⟨s', t', hs', ht', htype⟩, hkey, hauto⟩
    rw [hs] at hs'
    rw [ht] at ht'
    cases hs'
    cases ht'
    exact ⟨hname, htype, hkey, hauto⟩

end Column

theorem Dialect.Spells.eq_iff {d : Dialect} {l m : List Symbol} {s t : String} (hs : d.Spells l s)
    (ht : d.Spells m t) : s = t ↔ l = m := by
  constructor
  · rintro rfl
    rw [← hs.symbols_eq, ht.symbols_eq]
  · rintro rfl
    rw [← String.toList_inj, hs.text, ht.text]

theorem Statement.creationSymbols_inj {d : Dialect} {s t : String} {a b : Bool}
    {items more : List (List Symbol)} (hitems : ∀ i ∈ items, IsItem i)
    (hmore : ∀ i ∈ more, IsItem i) :
    creationSymbols d s a items = creationSymbols d t b more ↔ a = b ∧ s = t ∧ items = more := by
  constructor
  · intro h
    have hguard := List.append_cancel_left h
    have hab : a = b := by
      cases a <;> cases b <;> simp [chars, Symbol.name] at hguard ⊢
    rw [hab] at hguard
    have hname := List.append_cancel_left hguard
    rw [List.cons_eq_cons, Symbol.name_inj] at hname
    have hlist := List.append_cancel_right (List.append_cancel_left hname.2)
    have hsame := congrArg itemsOf hlist
    rw [itemsOf_intercalate hitems, itemsOf_intercalate hmore] at hsame
    exact ⟨hab, hname.1, hsame⟩
  · rintro ⟨rfl, rfl, rfl⟩
    rfl

namespace Table

theorem map_symbols_foreignKeys_eq_iff {d : Dialect} {t u : Table} (hname : t.name = u.name) :
    t.foreignKeys.map (·.symbols d) = u.foreignKeys.map (·.symbols d) ↔
      t.toldKeys = u.toldKeys := by
  have hread : ∀ v : Table, v.toldKeys =
      (v.foreignKeys.map (·.symbols d)).filterMap fun l => (keyClause? d v.name l).map (·.1) := by
    intro v
    rw [← v.map_entryIn_foreignKeys, List.filterMap_map, ← List.filterMap_eq_map]
    congr 1
    funext k
    have hclause : keyClause? d v.name (k.symbols d) = some (k.entryIn v.name, []) :=
      keyClause?_eq_some_iff.mpr ⟨rfl, (List.append_nil _).symm⟩
    simp [hclause]
  have hwritten : ∀ v : Table, v.foreignKeys.map (·.symbols d) = v.toldKeys.map (·.symbols d) := by
    intro v
    rw [← v.map_entryIn_foreignKeys, List.map_map]
    rfl
  constructor
  · intro h
    rw [hread t, h, hname, ← hread u]
  · intro h
    rw [hwritten t, h, ← hwritten u]

/-- Texts that create tables are the same exactly if they are meant for the same table, under the
same guard: of one name, with columns that are written alike, and with the same keys where these are
declared inside. -/
theorem writeCreation_eq_iff {d : Dialect} {a b : Bool} {t u : Table} {s s' : String}
    (ht : t.writeCreation d a = .ok s) (hu : u.writeCreation d b = .ok s') :
    s = s' ↔ a = b ∧ t.name = u.name ∧ List.Forall₂ (Column.WrittenAlike d) t.columns u.columns ∧
      (d.inlinesForeignKeys → t.toldKeys = u.toldKeys) := by
  obtain ⟨columns, hcolumns, htext⟩ := exists_columns_of_writeCreation ht
  obtain ⟨others, hothers, hother⟩ := exists_columns_of_writeCreation hu
  obtain ⟨items, hitems, hspells⟩ := Statement.spells_createTable htext
  obtain ⟨more, hmore, hmoreSpells⟩ := Statement.spells_createTable hother
  have hcolumnsAlike : items = more ↔ List.Forall₂ (Column.WrittenAlike d) t.columns u.columns := by
    rw [← List.forall₂_eq_eq_eq, forall₂_iff_of_forall₂ hitems hmore fun _ _ _ _ hx hy =>
      hx.eq_iff hy]
    exact forall₂_iff_of_forall₂ hcolumns hothers fun _ _ _ _ =>
      Column.writtenAlike_iff_of_definition
  rw [hspells.eq_iff hmoreSpells,
    Statement.creationSymbols_inj (forall_isItem hitems _) (forall_isItem hmore _),
    append_eq_append_iff_of_kind (fun l => (name? d l).isSome)
      (isSome_name?_of_spelledFrom hitems) (isSome_name?_of_spelledFrom hmore)
      (isSome_name?_of_mem_keys _) (isSome_name?_of_mem_keys _), hcolumnsAlike]
  refine and_congr_right fun _ => and_congr_right fun hname => and_congr_right fun _ => ?_
  cases hd : d.inlinesForeignKeys with
  | true => simpa using map_symbols_foreignKeys_eq_iff hname
  | false => simp

/-- A table whose names go on like the statement around them. -/
def signpost : Table where
  name := "x` ( `y"
  columns := [⟨"c` varchar(255), `n", "varchar", 0, .none, false⟩, ⟨"n", "int", 3, .primary, true⟩]
  permissions := []

/-- The same table with its lengths told. -/
def toldSignpost : Table where
  name := "x` ( `y"
  columns := [⟨"c` varchar(255), `n", "varchar", 255, .none, false⟩,
    ⟨"n", "int", 11, .primary, true⟩]
  permissions := [⟨"u", ["SELECT"]⟩]

/-- In MySQL the two tables are created by the same text, and in PostgreSQL they are not. -/
theorem writeCreation_eq_iff_signposts :
    (∃ s s', signpost.writeCreation .mysql true = .ok s ∧
      toldSignpost.writeCreation .mysql true = .ok s' ∧ s = s') ∧
      ∃ s s', signpost.writeCreation .postgres true = .ok s ∧
        toldSignpost.writeCreation .postgres true = .ok s' ∧
        s ≠ s' := by
  constructor
  · obtain ⟨s, hs⟩ : ∃ s, signpost.writeCreation .mysql true = .ok s := ⟨_, rfl⟩
    obtain ⟨s', hs'⟩ : ∃ s, toldSignpost.writeCreation .mysql true = .ok s := ⟨_, rfl⟩
    have hcolumns :
        List.Forall₂ (Column.WrittenAlike .mysql) signpost.columns toldSignpost.columns :=
      .cons ⟨rfl, ⟨_, _, rfl, rfl, rfl⟩, rfl, rfl⟩
        (.cons ⟨rfl, ⟨_, _, rfl, rfl, rfl⟩, rfl, rfl⟩ .nil)
    exact ⟨s, s', hs, hs', (writeCreation_eq_iff hs hs').mpr ⟨rfl, rfl, hcolumns, nofun⟩⟩
  · obtain ⟨s, hs⟩ : ∃ s, signpost.writeCreation .postgres true = .ok s := ⟨_, rfl⟩
    obtain ⟨s', hs'⟩ : ∃ s, toldSignpost.writeCreation .postgres true = .ok s := ⟨_, rfl⟩
    refine ⟨s, s', hs, hs', fun heq => ?_⟩
    obtain ⟨-, -, hcolumns, -⟩ := (writeCreation_eq_iff hs hs').mp heq
    obtain ⟨⟨-, ⟨_, _, hshort, hlong, hshown⟩, -, -⟩, -⟩ := List.forall₂_cons.mp hcolumns
    cases hshort
    cases hlong
    cases hshown

end Table

end SchemaDoc
