import SchemaDoc.Proofs.Sql.Granting

/-!
# A grant tells its block

What is read from a GRANT statement is all that stands in it: written again it gives the statement
back (`Dialect.eq_grantText_of_readGrant?`). So a text is the grant for a block of a table exactly
if it reads as this block (`Table.grant?_eq_some_iff`), and one text is the grant for two blocks
only if these grant the same actions on tables of one name to one user
(`Table.grants_tell_blocks_apart`), whatever marks and words there are in the names.
-/
namespace SchemaDoc

theorem splitAtCommas_ne_nil (s : List Char) : splitAtCommas s ≠ [] := by
  fun_cases splitAtCommas s with
  | case1 => simp
  | case2 s => simp
  | case3 c s h => simp [splitAtCommas_ne_nil s]

theorem intercalate_splitAtCommas (s : List Char) :
    [',', ' '].intercalate (splitAtCommas s) = s := by
  fun_induction splitAtCommas s with
  | case1 => rfl
  | case2 s ih =>
    obtain ⟨piece, pieces, hpieces⟩ := List.exists_cons_of_ne_nil (splitAtCommas_ne_nil s)
    rw [hpieces, List.intercalate_cons_cons, ← hpieces, ih]
    rfl
  | case3 c s h ih =>
    obtain ⟨piece, pieces, hpieces⟩ := List.exists_cons_of_ne_nil (splitAtCommas_ne_nil s)
    rw [hpieces] at ih ⊢
    rw [List.modifyHead_cons]
    cases pieces with
    | nil => simpa using ih
    | cons next pieces =>
      rw [List.intercalate_cons_cons] at ih ⊢
      simpa using ih

theorem map_char_front_append (l : List Symbol) : (front l).1.map .char ++ (front l).2 = l := by
  fun_induction front l with
  | case1 c l ih => rw [List.map_cons, List.cons_append, ih]
  | case2 l h => rfl

namespace Dialect

theorem eq_grantText_of_readGrant? {d : Dialect} {text : String} {g : Grant}
    (h : d.readGrant? text = some g) : text = d.grantText g.actions g.table g.user := by
  obtain ⟨l, hgrant, h⟩ := Option.bind_eq_some_iff.mp h
  obtain ⟨listed, hlisted, h⟩ := Option.bind_eq_some_iff.mp h
  obtain ⟨⟨table, behind⟩, htable, h⟩ := Option.bind_eq_some_iff.mp h
  obtain ⟨granted, hto, h⟩ := Option.bind_eq_some_iff.mp h
  obtain ⟨⟨user, last⟩, huser, h⟩ := Option.bind_eq_some_iff.mp h
  dsimp only at hto h
  split_ifs at h with hlast
  cases h
  rw [word?_eq_some_iff] at hgrant hto
  rw [name?_eq_some_iff] at htable
  rw [quotation?_eq_some_iff, hlast] at huser
  obtain ⟨on, hfront, hon⟩ := List.dropSuffix?_eq_some_iff.mp hlisted
  have hsymbols : d.symbols text.toList = chars "GRANT " ++ ((listed ++ " ON ".toList).map .char ++
      .name d table :: (chars " TO " ++ [.quoted d.granteeMark user.toList])) := by
    rw [hgrant, ← map_char_front_append l, hfront, eq_of_beq hon, htable, hto, huser]
  have htext := d.spelled_symbols text.toList
  rw [hsymbols, spelled_append, spelled_chars, spelled_append, spelled_map_char, spelled_name_cons,
    spelled_append, spelled_chars, ← (d.spells_grantee user).text] at htext
  have hactions : (", ".intercalate ((splitAtCommas listed).map String.ofList)).toList =
      listed := by
    rw [String.toList_intercalate, List.map_map]
    simpa using intercalate_splitAtCommas listed
  rw [← String.toList_inj, ← htext]
  simp [grantText, hactions]

theorem readGrant?_eq_some_iff {d : Dialect} {text : String} {g : Grant} (hne : g.actions ≠ [])
    (h : ∀ a ∈ g.actions, isActionWord a) :
    d.readGrant? text = some g ↔ text = d.grantText g.actions g.table g.user := by
  constructor
  · exact eq_grantText_of_readGrant?
  · rintro rfl
    exact d.readGrant?_grantText hne h g.table g.user

end Dialect

namespace Table

/-- A text is the grant for a block exactly if the block grants something and is read from the
text. -/
theorem grant?_eq_some_iff {d : Dialect} {t : Table} {p : Permission} {text : String} :
    t.grant? d p = some text ↔
      p.grantedActions ≠ [] ∧ d.readGrant? text = some ⟨p.grantedActions, t.name, p.user⟩ := by
  rw [grant?]
  split_ifs with hnone
  · simp [List.isEmpty_iff.mp hnone]
  · have hne : p.grantedActions ≠ [] := by simpa using hnone
    have hwords : ∀ a ∈ p.grantedActions, isActionWord a :=
      fun a ha => (Permission.mem_grantedActions.mp ha).2
    rw [d.readGrant?_eq_some_iff hne hwords, and_iff_right hne, Option.some.injEq, eq_comm]

/-- The actions, the table and the user of a block are read from the grant for it, and from no other
text; so the same text is the grant for another block exactly if that one has the same actions,
table and user. -/
theorem grants_tell_blocks_apart {d : Dialect} {t : Table} {p : Permission} {text : String}
    (h : t.grant? d p = some text) :
    (∀ s, d.readGrant? s = some ⟨p.grantedActions, t.name, p.user⟩ ↔ s = text) ∧
      ∀ (u : Table) (q : Permission), u.grant? d q = some text ↔
        u.name = t.name ∧ q.user = p.user ∧ q.grantedActions = p.grantedActions := by
  obtain ⟨hne, hread⟩ := grant?_eq_some_iff.mp h
  have hwritten := Dialect.eq_grantText_of_readGrant? hread
  constructor
  · intro s
    constructor
    · intro hs
      rw [Dialect.eq_grantText_of_readGrant? hs, hwritten]
    · rintro rfl
      exact hread
  · intro u q
    rw [grant?_eq_some_iff, hread]
    simp only [Option.some.injEq, Grant.mk.injEq]
    constructor
    · rintro ⟨-, hactions, hname, huser⟩
      exact ⟨hname.symm, huser.symm, hactions.symm⟩
    · rintro ⟨hname, huser, hactions⟩
      exact ⟨hactions ▸ hne, hactions.symm, hname.symm, huser.symm⟩

/-- A table and a user whose names go on like a grant. -/
def mimic : Table where
  name := "t` TO 'x"
  columns := []
  permissions := [⟨"\\' TO 'x", [" SELECT ", "a;b", "ALL PRIVILEGES", "SELECT"]⟩]

theorem grants_tell_blocks_apart_mimic :
    ∃ p text, mimic.permissions = [p] ∧ mimic.grant? .mysql p = some text ∧
      Dialect.mysql.readGrant? text = some ⟨["SELECT", "ALL PRIVILEGES"], "t` TO 'x", "\\' TO 'x"⟩ ∧
      mimic.grant? .mysql { p with user := "x" } ≠ some text := by
  let p : Permission := ⟨"\\' TO 'x", [" SELECT ", "a;b", "ALL PRIVILEGES", "SELECT"]⟩
  have hactions : p.grantedActions = ["SELECT", "ALL PRIVILEGES"] := by decide
  obtain ⟨text, h⟩ : ∃ text, mimic.grant? .mysql p = some text := by simp [grant?, hactions]
  obtain ⟨hread, hapart⟩ := grants_tell_blocks_apart h
  have htold := (hread text).mpr rfl
  rw [hactions] at htold
  refine ⟨p, text, rfl, h, htold, fun hother => ?_⟩
  obtain ⟨-, huser, -⟩ := (hapart mimic { p with user := "x" }).mp hother
  revert huser
  decide

end Table

end SchemaDoc
