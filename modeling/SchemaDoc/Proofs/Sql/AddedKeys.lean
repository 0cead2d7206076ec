import SchemaDoc.Proofs.Sql.DeclaredKeys

/-!
# Statements that add foreign keys

The name of a constraint stands between quote marks as it is. Where these make a quotation, the
statement adds its key and does nothing else; everywhere else it is read as something different
(`Statement.addedKey?_eq_some_iff`).
-/
namespace SchemaDoc

/-- What follows the naming of a constraint, if a text begins with one. MySQL has the word for it
also without a name. -/
def skipNaming? (d : Dialect) (l : List Symbol) : Option (List Symbol) :=
  match word? "CONSTRAINT " l with
  | none => some l
  | some l => word? " " (((name? d l).map (·.2)).getD l)

/-- The key that a statement adds, if it adds one and does nothing else. -/
def Dialect.addedKey? (d : Dialect) (text : String) : Option KeyEntry := do
  let (table, l) ← d.alteration? text
  let l ← word? " ADD " l
  let l ← skipNaming? d l
  let (key, l) ← keyClause? d table l
  if l = [] then some key else none

theorem length_doubled (mark : Char) (s : List Char) :
    (doubled mark s).length = s.length + s.count mark := by
  induction s with
  | nil => rfl
  | cons c s ih => by_cases h : c = mark <;> simp [doubled, h, ih] <;> omega

theorem count_doubled (mark : Char) (s : List Char) :
    (doubled mark s).count mark = 2 * s.count mark := by
  induction s with
  | nil => rfl
  | cons c s ih =>
    by_cases h : c = mark
    · simp [doubled, h, ih]
      omega
    · simp [doubled, h, ih]

theorem doubled_eq_self_iff {mark : Char} {s : List Char} : doubled mark s = s ↔ mark ∉ s := by
  constructor
  · intro h
    have hlength := congrArg List.length h
    rw [length_doubled] at hlength
    exact List.count_eq_zero.mp (by omega)
  · exact doubled_of_not_mem

namespace ForeignKey

/-- The name of the constraint, if there is one, makes a quotation of some name between quote
marks. -/
def HasQuotedName (d : Dialect) (k : ForeignKey) : Prop :=
  ∀ name, k.constraint? = some name → ∃ s, markedName d name = d.quote s

/-- Between marks a name makes its own quotation exactly if none has to be doubled in it. -/
theorem markedName_eq_quote_iff {d : Dialect} {name : String} :
    markedName d name = d.quote name ↔ d.quoteMark ∉ name.toList := by
  rw [← doubled_eq_self_iff, ← String.toList_inj]
  simp [markedName, d.toList_quote, eq_comm]

theorem two_dvd_count_of_markedName_eq_quote {d : Dialect} {name s : String}
    (h : markedName d name = d.quote s) : 2 ∣ name.toList.count d.quoteMark := by
  have hdoubled : name.toList = doubled d.quoteMark s.toList := by
    rw [← String.toList_inj] at h
    simpa [markedName, d.toList_quote] using h
  rw [hdoubled, count_doubled]
  exact Nat.dvd_mul_right 2 _

/-- What the naming of a constraint is spelled from. -/
def namingSymbols (d : Dialect) : Option String → List Symbol
  | some s => chars "CONSTRAINT " ++ .name d s :: chars " "
  | none => chars (if d = .mysql then "CONSTRAINT  " else "")

theorem endsPlain_namingSymbols (d : Dialect) (s? : Option String) :
    EndsPlain (namingSymbols d s?) := by
  cases s? with
  | none => exact endsPlain_chars _
  | some s => simp [namingSymbols, chars, EndsPlain, Symbol.isQuoted]

theorem constraintText_of_some {k : ForeignKey} {name : String} (h : k.constraint? = some name)
    (d : Dialect) : k.constraintText d = "CONSTRAINT " ++ (markedName d name ++ " ") := by
  cases d <;> simp [constraintText, h, String.append_assoc]

theorem spells_constraintText_of_markedName {d : Dialect} {k : ForeignKey} {s? : Option String}
    (h : k.constraint?.map (markedName d) = s?.map d.quote) :
    d.Spells (namingSymbols d s?) (k.constraintText d) := by
  cases hname : k.constraint? with
  | none =>
    have htext : k.constraintText d = if d = .mysql then "CONSTRAINT  " else "" := by
      cases d <;> simp [constraintText, hname]
    rw [hname, Option.map_none, eq_comm, Option.map_eq_none_iff] at h
    rw [h, htext]
    exact .plain (by split_ifs <;> decide)
  | some name =>
    rw [hname, Option.map_some, eq_comm, Option.map_eq_some_iff] at h
    obtain ⟨s, rfl, hs⟩ := h
    rw [constraintText_of_some hname, ← hs]
    apply Dialect.Spells.plain_append (by decide)
    apply Dialect.Spells.quote_append _ (.plain (by decide))
    simpa using beginsPlain_chars_append (w := " ") (by decide) []

theorem HasQuotedName.exists_map_eq {d : Dialect} {k : ForeignKey} (h : k.HasQuotedName d) :
    ∃ s? : Option String, k.constraint?.map (markedName d) = s?.map d.quote := by
  cases hname : k.constraint? with
  | none => exact ⟨none, rfl⟩
  | some name =>
    obtain ⟨s, hs⟩ := h name hname
    exact ⟨some s, by rw [Option.map_some, hs, Option.map_some]⟩

theorem spells_constraintText {d : Dialect} {k : ForeignKey} (h : k.HasQuotedName d) :
    ∃ s?, d.Spells (namingSymbols d s?) (k.constraintText d) := by
  obtain ⟨s?, hmarked⟩ := h.exists_map_eq
  exact ⟨s?, spells_constraintText_of_markedName hmarked⟩

theorem skipNaming?_namingSymbols (d : Dialect) (s? : Option String) (k : ForeignKey) :
    skipNaming? d (namingSymbols d s? ++ k.symbols d) = some (k.symbols d) := by
  cases s? with
  | none =>
    cases d <;> simp [skipNaming?, namingSymbols, symbols, chars, word?, stripChars?,
      name?, quotation?]
  | some s =>
    rw [namingSymbols, List.append_assoc, List.cons_append, skipNaming?, word?_chars_append]
    simp only [name?_name, Option.map_some, Option.getD_some, word?_chars_append]

theorem declares_namingSymbols (d : Dialect) (s? : Option String) (table : String) :
    Declares d table (namingSymbols d s?) [] := by
  cases s? with
  | none => exact .chars (by split_ifs <;> decide)
  | some s => exact (Declares.chars (by decide)).append (.cons_name s (.chars (by decide)))

theorem eq_of_append_clause {d : Dialect} {k l : ForeignKey} {a b : String}
    (h : a ++ k.clause d = b ++ l.clause d) : a = b := by
  have hplain : ∀ m : ForeignKey, BeginsPlain (m.symbols d) :=
    fun m => beginsPlain_chars_append (by decide) _
  have hk := (k.spells_clause d).symbolsFromEnd_append_eq (hplain k) a
  rw [h, (l.spells_clause d).symbolsFromEnd_append_eq (hplain l) b] at hk
  have hlength : (l.symbols d).length = (k.symbols d).length := by simp [symbols, chars]
  have hsymbols := (List.append_inj' hk hlength).2
  have hclause : k.clause d = l.clause d := by
    rw [← String.toList_inj, (k.spells_clause d).text, (l.spells_clause d).text, hsymbols]
  rwa [hclause, String.append_left_inj] at h

/-- Behind the name of a constraint, a clause up to the end of the statement is read only if the
name ends where it should. -/
theorem hasQuotedName_of_skipNaming? {d : Dialect} {k l : ForeignKey}
    (h : skipNaming? d (d.symbols (k.constraintText d ++ k.clause d).toList) = some (l.symbols d)) :
    k.HasQuotedName d := by
  intro name hname
  have hword : d.Spells (chars "CONSTRAINT ") "CONSTRAINT " := .plain (by decide)
  rw [constraintText_of_some hname, String.append_assoc,
    hword.symbols_append_eq (endsPlain_chars _), skipNaming?, word?_chars_append] at h
  simp only [word?_eq_some_iff] at h
  have hspelled := d.spelled_symbols (markedName d name ++ " " ++ k.clause d).toList
  cases hread : name? d (d.symbols (markedName d name ++ " " ++ k.clause d).toList) with
  | none =>
    rw [hread, Option.map_none, Option.getD_none] at h
    rw [h] at hspelled
    have hmark : d.quoteMark = ' ' := by
      have hhead := congrArg List.head? hspelled.symm
      simpa [markedName, chars, Dialect.spelled, Symbol.spell] using hhead
    cases d <;> cases hmark
  | some r =>
    obtain ⟨s, m⟩ := r
    simp only [hread, Option.map_some, Option.getD_some] at h
    rw [name?_eq_some_iff, h] at hread
    have hs : d.Spells (.name d s :: (chars " " ++ l.symbols d))
        (d.quote s ++ (" " ++ l.clause d)) :=
      .quote_append s (.plain_append (by decide) (l.spells_clause d))
        (beginsPlain_chars_append (by decide) _)
    rw [hread, ← hs.text, String.toList_inj, ← String.append_assoc] at hspelled
    exact ⟨s, (String.append_left_inj " ").mp (eq_of_append_clause hspelled.symm)⟩

end ForeignKey

namespace Statement

theorem createdTable?_addForeignKey {d : Dialect} {k : ForeignKey} {text : String}
    (h : (addForeignKey k).text d = .ok text) : d.createdTable? text = none := by
  obtain ⟨front, rfl, hspells, hplain⟩ := text_addForeignKey h
  rw [Dialect.createdTable?, hspells.symbols_append_eq hplain]
  simp [alterationSymbols, chars, word?, stripChars?]

theorem alteration?_addForeignKey {d : Dialect} {k : ForeignKey} {text : String}
    (h : (addForeignKey k).text d = .ok text) : d.alteration? text =
      some (k.table, chars " ADD " ++ d.symbols (k.constraintText d ++ k.clause d).toList) := by
  obtain ⟨front, rfl, hspells, hplain⟩ := text_addForeignKey h
  rw [Dialect.alteration?, hspells.symbols_append_eq hplain, alterationSymbols, List.append_assoc,
    List.cons_append, word?_chars_append, Option.bind_eq_bind, Option.bind_some, name?_name]

/-- The statement is read as adding a key and nothing else exactly if the name of the constraint
makes a quotation, and then it adds the key that it is written for. -/
theorem addedKey?_eq_some_iff {d : Dialect} {k : ForeignKey} {text : String}
    (h : (addForeignKey k).text d = .ok text) {e : KeyEntry} :
    d.addedKey? text = some e ↔ k.HasQuotedName d ∧ e = k.entry := by
  have hread : d.addedKey? text = some e ↔ e.table = k.table ∧
      skipNaming? d (d.symbols (k.constraintText d ++ k.clause d).toList) = some (e.symbols d) := by
    simp only [Dialect.addedKey?, alteration?_addForeignKey h, Option.bind_eq_bind,
      Option.bind_some, word?_chars_append, Option.bind_eq_some_iff, Prod.exists,
      keyClause?_eq_some_iff]
    constructor
    · rintro ⟨l, hl, e', rest, ⟨htable, rfl⟩, hend⟩
      split_ifs at hend with hrest
      cases hend
      rw [hl, hrest, List.append_nil]
      exact ⟨htable, rfl⟩
    · rintro ⟨htable, hl⟩
      exact ⟨_, hl, e, [], ⟨htable, (List.append_nil _).symm⟩, rfl⟩
  have hskip (hname : k.HasQuotedName d) :
      skipNaming? d (d.symbols (k.constraintText d ++ k.clause d).toList) =
          some (k.entry.symbols d) := by
    obtain ⟨s?, hs⟩ := ForeignKey.spells_constraintText hname
    rw [hs.symbols_append_eq (ForeignKey.endsPlain_namingSymbols d s?),
      (k.spells_clause d).symbols_eq]
    exact ForeignKey.skipNaming?_namingSymbols d s? k
  rw [hread]
  constructor
  · rintro ⟨htable, hl⟩
    have hname : k.HasQuotedName d := ForeignKey.hasQuotedName_of_skipNaming? hl
    rw [hskip hname, Option.some.injEq] at hl
    exact ⟨hname, KeyEntry.eq_of_symbols_eq htable hl.symm⟩
  · rintro ⟨hname, rfl⟩
    exact ⟨rfl, hskip hname⟩

theorem declaredKeys_addForeignKey {d : Dialect} {k : ForeignKey} {text : String}
    (h : (addForeignKey k).text d = .ok text) (hname : k.HasQuotedName d) :
    d.declaredKeys text = [k.entry] := by
  have htable : (d.createdTable? text).or ((d.alteration? text).map (·.1)) = some k.table := by
    rw [createdTable?_addForeignKey h, alteration?_addForeignKey h]
    rfl
  rw [Dialect.declaredKeys, htable]
  obtain ⟨front, rfl, hspells, hplain⟩ := text_addForeignKey h
  obtain ⟨s?, hs⟩ := ForeignKey.spells_constraintText hname
  have hfront : Declares d k.table (alterationSymbols d k.table) [] :=
    (Declares.chars (by decide)).append (.cons_name k.table (.chars (by decide)))
  have hnaming := ForeignKey.declares_namingSymbols d s? k.table
  have hall := hfront.append (hnaming.append (Declares.clause k)) []
  rw [hspells.symbols_append_eq hplain,
    hs.symbols_append_eq (ForeignKey.endsPlain_namingSymbols d s?), (k.spells_clause d).symbols_eq]
  simpa [keyClauses, ForeignKey.entryIn_table] using hall

end Statement

end SchemaDoc
