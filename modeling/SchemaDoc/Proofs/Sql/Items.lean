import SchemaDoc.Proofs.Sql.DeclaredKeys

/-!
# The items of a table

The statement that creates a table lists in brackets what the table is made of: its columns, and
behind them the clauses for keys, where these are declared inside. The items of such a list are what
stands between its commas, those in further brackets apart (`Dialect.creation?`), and they are read
as they have been put together, whatever the names in them look like
(`Statement.creation?_createTable`).
-/
namespace SchemaDoc

/-- How deep in brackets a list goes on behind a symbol, or none where an item of it ends. -/
def Symbol.next? (depth : Nat) : Symbol → Option Nat
  | char c =>
    if c = ',' ∧ depth = 0 then none
    else some (if c = '(' then depth + 1 else if c = ')' then depth - 1 else depth)
  | quoted _ _ => some depth

/-- How deep in brackets a list goes on behind a text in which no item ends. -/
def depthBehind (depth : Nat) (l : List Symbol) : Option Nat :=
  l.foldlM Symbol.next? depth

theorem depthBehind_append (depth : Nat) (l m : List Symbol) :
    depthBehind depth (l ++ m) = (depthBehind depth l).bind (depthBehind · m) :=
  List.foldlM_append

theorem depthBehind_cons (depth : Nat) (x : Symbol) (l : List Symbol) :
    depthBehind depth (x :: l) = (x.next? depth).bind (depthBehind · l) :=
  rfl

theorem depthBehind_name_cons (depth : Nat) (d : Dialect) (s : String) (l : List Symbol) :
    depthBehind depth (.name d s :: l) = depthBehind depth l :=
  rfl

theorem chars_append (a b : String) : chars (a ++ b) = chars a ++ chars b := by
  simp [chars]

/-- Neither commas nor brackets. -/
def isListed (c : Char) : Bool :=
  c != ',' && c != '(' && c != ')'

theorem depthBehind_chars {w : String} (h : w.toList.all isListed) (depth : Nat) :
    depthBehind depth (chars w) = some depth := by
  rw [List.all_eq_true] at h
  rw [chars]
  generalize w.toList = s at h ⊢
  induction s with
  | nil => rfl
  | cons c s ih =>
    obtain ⟨hc, hs⟩ := List.forall_mem_cons.mp h
    simp only [isListed, Bool.and_eq_true, bne_iff_ne] at hc
    rw [List.map_cons, depthBehind_cons, Symbol.next?, if_neg (fun hcomma => hc.1.1 hcomma.1),
      if_neg hc.1.2, if_neg hc.2, Option.bind_some, ih hs]

/-- A list cut at its commas. -/
def cutAtCommas : Nat → List Symbol → List (List Symbol)
  | _, [] => [[]]
  | depth, x :: l =>
    match x.next? depth with
    | some depth => (cutAtCommas depth l).modifyHead (x :: ·)
    | none => [] :: cutAtCommas 0 l

theorem cutAtCommas_append {depth last : Nat} {l : List Symbol}
    (h : depthBehind depth l = some last) (rest : List Symbol) :
    cutAtCommas depth (l ++ rest) = (cutAtCommas last rest).modifyHead (l ++ ·) := by
  induction l generalizing depth with
  | nil =>
    cases h
    exact (congrFun List.modifyHead_id _).symm
  | cons x l ih =>
    rw [depthBehind_cons, Option.bind_eq_some_iff] at h
    obtain ⟨next, hnext, h⟩ := h
    rw [List.cons_append, cutAtCommas, hnext]
    simp only [ih h, List.modifyHead_modifyHead]
    rfl

/-- What can stand between commas: its brackets are closed, its commas stand inside of them, and
something other than a blank comes first. -/
structure IsItem (l : List Symbol) : Prop where
  closed : depthBehind 0 l = some 0
  ne_nil : l ≠ []
  begins : l.head? ≠ some (.char ' ')

def afterBlank : List Symbol → List Symbol
  | .char ' ' :: l => l
  | l => l

theorem IsItem.afterBlank_eq {l : List Symbol} (h : IsItem l) : afterBlank l = l := by
  unfold afterBlank
  split
  next l => exact absurd rfl h.begins
  next => rfl

theorem cutAtCommas_intercalate {item : List Symbol} {items : List (List Symbol)}
    (h : ∀ i ∈ item :: items, IsItem i) :
    cutAtCommas 0 ((chars ", ").intercalate (item :: items)) =
      item :: items.map (.char ' ' :: ·) := by
  induction items generalizing item with
  | nil =>
    have hcut := cutAtCommas_append (h item List.mem_cons_self).closed []
    simpa [cutAtCommas] using hcut
  | cons next items ih =>
    obtain ⟨hitem, hrest⟩ := List.forall_mem_cons.mp h
    have hcomma : ∀ l, cutAtCommas 0 (chars ", " ++ l) =
        [] :: (cutAtCommas 0 l).modifyHead (.char ' ' :: ·) :=
      fun _ => rfl
    rw [List.intercalate_cons_cons, List.append_assoc, cutAtCommas_append hitem.closed,
      hcomma, ih hrest]
    simp

def itemsOf (l : List Symbol) : List (List Symbol) :=
  if l = [] then [] else (cutAtCommas 0 l).map afterBlank

theorem itemsOf_intercalate {items : List (List Symbol)} (h : ∀ i ∈ items, IsItem i) :
    itemsOf ((chars ", ").intercalate items) = items := by
  cases items with
  | nil => rfl
  | cons item items =>
    have hitem : IsItem item := h item List.mem_cons_self
    have hsome : (chars ", ").intercalate (item :: items) ≠ [] := by
      cases items <;> simp [List.intercalate_cons_cons, hitem.ne_nil]
    rw [itemsOf, if_neg hsome, cutAtCommas_intercalate h, List.map_cons,
      hitem.afterBlank_eq, List.map_map]
    exact congrArg _ (List.map_id items)

/-- The table that a statement creates, and its items, if it is such a statement from its front to
its end. -/
def Dialect.creation? (d : Dialect) (text : String) : Option (String × List (List Symbol)) := do
  let l ← word? "CREATE TABLE " (d.symbols text.toList)
  let (table, l) ← name? d ((word? "IF NOT EXISTS " l).getD l)
  let l ← word? " ( " l
  let list ← l.dropSuffix? (chars " )")
  return (table, itemsOf list)

theorem ColumnType.depthBehind_text (d : Dialect) (t : ColumnType) :
    depthBehind 0 (chars (t.text d)) = some 0 := by
  cases t with
  | int => cases d <;> decide
  | varchar n =>
    cases n with
    | zero => cases d <;> decide
    | succ n =>
      have hopen : depthBehind 0 (chars "varchar(") = some 1 := by decide
      have hclose : depthBehind 1 (chars ")") = some 0 := by decide
      have hdigits : (toString (n + 1)).toList.all isListed := by
        rw [Nat.toString_eq_repr, Nat.toList_repr, List.all_eq_true]
        intro c hc
        have hdigit := Nat.isDigit_of_mem_toDigits (by decide) (by decide) hc
        simp only [isListed, Bool.and_eq_true, bne_iff_ne]
        refine ⟨⟨?_, ?_⟩, ?_⟩ <;> rintro rfl <;> revert hdigit <;> decide
      rw [ColumnType.text, chars_append, chars_append, depthBehind_append,
        depthBehind_append, hopen, Option.bind_some, depthBehind_chars hdigits, Option.bind_some,
        hclose]

namespace ColumnDefinition

theorem depthBehind_typeText {d : Dialect} {c : ColumnDefinition} {type : String}
    (h : c.typeText d = .ok type) : depthBehind 0 (chars type) = some 0 := by
  rw [typeText] at h
  split_ifs at h
  · cases htype : c.type with
    | int =>
      rw [htype] at h
      cases h
      decide
    | varchar n =>
      rw [htype] at h
      cases h
  · cases h
    exact c.type.depthBehind_text d

theorem IsSpelledFrom.isItem {d : Dialect} {c : ColumnDefinition} {item : List Symbol}
    (h : c.IsSpelledFrom d item) : IsItem item := by
  obtain ⟨type, htype, rfl⟩ := h
  have hblank : depthBehind 0 (chars " ") = some 0 := by decide
  have hkey : (if c.isPrimaryKey then " PRIMARY KEY" else "").toList.all isListed := by
    split_ifs <;> decide
  have hauto : (c.autoincrementText d).toList.all isListed := by
    cases d <;> rw [autoincrementText.eq_def] <;> split_ifs <;> decide
  refine ⟨?_, List.cons_ne_nil _ _, by simp [Symbol.name]⟩
  rw [depthBehind_name_cons, traits, chars_append, chars_append, chars_append,
    depthBehind_append, hblank, Option.bind_some, depthBehind_append, depthBehind_typeText htype,
    Option.bind_some, depthBehind_append, depthBehind_chars hkey, Option.bind_some,
    depthBehind_chars hauto]

end ColumnDefinition

theorem ForeignKey.isItem_symbols (d : Dialect) (k : ForeignKey) : IsItem (k.symbols d) := by
  have hopen : depthBehind 0 (chars "FOREIGN KEY (") = some 1 := by decide
  have hreferences : depthBehind 1 (chars ") REFERENCES ") = some 0 := by decide
  have hcolumn : depthBehind 0 (chars " (") = some 1 := by decide
  have hclose : depthBehind 1 (chars ")") = some 0 := by decide
  refine ⟨?_, by simp [symbols], by simp [symbols, chars]⟩
  rw [symbols, depthBehind_append, hopen, Option.bind_some, depthBehind_name_cons,
    depthBehind_append, hreferences, Option.bind_some, depthBehind_name_cons, depthBehind_append,
    hcolumn, Option.bind_some, depthBehind_name_cons, hclose]

theorem forall_isItem {d : Dialect} {columns : List ColumnDefinition}
    {definitions : List (List Symbol)} (h : List.Forall₂ (·.IsSpelledFrom d) columns definitions)
    (keys : List ForeignKey) : ∀ i ∈ definitions ++ keys.map (·.symbols d), IsItem i := by
  have hcolumns : ∀ i ∈ definitions, IsItem i :=
    forall_mem_of_forall₂ h fun _ _ hitem => hitem.isItem
  have hkeys : ∀ i ∈ keys.map (·.symbols d), IsItem i := List.forall_mem_map.mpr fun k _ =>
      k.isItem_symbols d
  exact List.forall_mem_append.mpr ⟨hcolumns, hkeys⟩

theorem isSome_name?_of_spelledFrom {d : Dialect} {columns : List ColumnDefinition}
    {items : List (List Symbol)} (h : List.Forall₂ (·.IsSpelledFrom d) columns items) :
    ∀ i ∈ items, (name? d i).isSome := by
  refine forall_mem_of_forall₂ h fun c item hitem => ?_
  obtain ⟨type, -, rfl⟩ := hitem
  rw [name?_name, Option.isSome_some]

theorem isSome_name?_of_mem_keys {d : Dialect} (keys : List ForeignKey) :
    ∀ i ∈ keys.map (·.symbols d), (name? d i).isSome = false := by
  rw [List.forall_mem_map]
  intro k _
  simp [ForeignKey.symbols, chars, name?, quotation?]

theorem filter_isSome_name?_items {d : Dialect} {columns : List ColumnDefinition}
    {definitions : List (List Symbol)} (h : List.Forall₂ (·.IsSpelledFrom d) columns definitions)
    (keys : List ForeignKey) :
    (definitions ++ keys.map (·.symbols d)).filter (fun item => (name? d item).isSome) =
      definitions := by
  have hkeys : (keys.map (·.symbols d)).filter (fun item => (name? d item).isSome) = [] :=
    List.filter_eq_nil_iff.mpr fun item hitem => by simp [isSome_name?_of_mem_keys keys item hitem]
  rw [List.filter_append, List.filter_eq_self.mpr (isSome_name?_of_spelledFrom h), hkeys,
    List.append_nil]

theorem filter_isNone_name?_items {d : Dialect} {columns : List ColumnDefinition}
    {definitions : List (List Symbol)} (h : List.Forall₂ (·.IsSpelledFrom d) columns definitions)
    (keys : List ForeignKey) :
    (definitions ++ keys.map (·.symbols d)).filter (fun item => (name? d item).isNone) =
      keys.map (·.symbols d) := by
  have hcolumns : definitions.filter (fun item => (name? d item).isNone) = [] :=
    List.filter_eq_nil_iff.mpr fun item hitem => by
      simpa [Option.ne_none_iff_isSome] using isSome_name?_of_spelledFrom h item hitem
  have hkeys : (keys.map (·.symbols d)).filter (fun item => (name? d item).isNone) =
      keys.map (·.symbols d) :=
    List.filter_eq_self.mpr fun item hitem => by
      simpa using isSome_name?_of_mem_keys keys item hitem
  rw [List.filter_append, hcolumns, hkeys, List.nil_append]

/-- The items of a table are its columns in their order, and behind them the keys that are declared
inside. -/
theorem Statement.creation?_createTable {d : Dialect} {name : String} {ifNotExists : Bool}
    {columns : List ColumnDefinition} {keys : List ForeignKey} {text : String}
    (h : (createTable name ifNotExists columns keys).text d = .ok text) :
    ∃ definitions, List.Forall₂ (·.IsSpelledFrom d) columns definitions ∧
      d.creation? text = some (name, definitions ++ keys.map (·.symbols d)) := by
  obtain ⟨definitions, hdefinitions, hspells⟩ := spells_createTable h
  refine ⟨definitions, hdefinitions, ?_⟩
  have hitems := itemsOf_intercalate (forall_isItem hdefinitions keys)
  have hend : ∀ l : List Symbol, (l ++ chars " )").dropSuffix? (chars " )") = some l :=
    fun l => List.dropSuffix?_eq_some_iff.mpr ⟨_, rfl, beq_self_eq_true _⟩
  rw [Dialect.creation?, hspells.symbols_eq, creationSymbols, word?_chars_append]
  simp only [Option.bind_eq_bind, Option.bind_some, word?_ifNotExists_getD, name?_name,
    word?_chars_append, hend, hitems]
  rfl

end SchemaDoc
