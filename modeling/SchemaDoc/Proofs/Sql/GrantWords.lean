import SchemaDoc.Proofs.Sql.Granting

/-!
# The words of a grant

A GRANT statement is held together by two words, ON before its table and TO before its user. Actions
are written into it as they are, and since an action may be of any words, ON and TO may be among
these: in a statement they stand in front of the two that belong to it
(`Dialect.prepositions_grantText`). So a statement keeps its shape exactly if each action with one
of these words is skipped (`Table.grant_keeps_shape_iff`), and not every such action is
(`Database.action_adds_prepositions`).
-/
namespace SchemaDoc

def isWordCharacter (c : Char) : Bool :=
  c.isAlphanum || c == '_'

def Symbol.isInWord : Symbol → Bool
  | .char c => isWordCharacter c
  | .quoted .. => false

/-- The words of a text outside of its quotations, each with what stands behind it. -/
def wordsOf : List Symbol → List (List Char × List Symbol)
  | [] => []
  | .quoted _ _ :: l => wordsOf l
  | .char c :: l =>
    if isWordCharacter c then
      if l.head?.any Symbol.isInWord then (wordsOf l).modifyHead fun w => (c :: w.1, w.2)
      else ([c], l) :: wordsOf l
    else wordsOf l

theorem wordsOf_ne_nil {l : List Symbol} (h : l.head?.any Symbol.isInWord) : wordsOf l ≠ [] := by
  fun_induction wordsOf l with
  | case1 => simp at h
  | case2 mark s l ih => simp [Symbol.isInWord] at h
  | case3 c l hc hnext ih => simpa using ih hnext
  | case4 c l hc hnext ih => exact List.cons_ne_nil _ _
  | case5 c l hc ih => simp [Symbol.isInWord, hc] at h

theorem wordsOf_append_cons {c : Char} (hc : isWordCharacter c = false) (l m : List Symbol) :
    wordsOf (l ++ .char c :: m) = (wordsOf l).map (fun w => (w.1, w.2 ++ .char c :: m)) ++
      wordsOf m := by
  fun_induction wordsOf l with
  | case1 => simp [wordsOf, hc]
  | case2 mark s l ih => simpa [wordsOf] using ih
  | case3 e l he hnext ih =>
    -- The next character is of the same word, so there is a first word of `l` that `e` is put in
    -- front of.
    obtain ⟨x, l', rfl⟩ := List.exists_cons_of_ne_nil (l := l) (by rintro rfl; simp at hnext)
    obtain ⟨w, words, hwords⟩ := List.exists_cons_of_ne_nil (wordsOf_ne_nil hnext)
    rw [List.head?_cons, Option.any_some] at hnext
    rw [List.cons_append, List.cons_append, wordsOf, if_pos he, List.head?_cons,
      Option.any_some, if_pos hnext, ← List.cons_append, ih, hwords]
    rfl
  | case4 e l he hnext ih =>
    have hplain : ¬(l ++ .char c :: m).head?.any Symbol.isInWord := by
      cases l with
      | nil => simp [Symbol.isInWord, hc]
      | cons x l => exact hnext
    rw [List.cons_append, wordsOf, if_pos he, if_neg hplain, ih]
    rfl
  | case5 e l he ih => rw [List.cons_append, wordsOf, if_neg he, ih]

/-- What holds a grant together. -/
inductive Preposition
  | on
  | to
  deriving DecidableEq, Repr

/-- The preposition that a word is, in upper or lower case. -/
def Preposition.ofWord? (w : List Char) : Option Preposition :=
  if w.map Char.toLower = "on".toList then some .on
  else if w.map Char.toLower = "to".toList then some .to
  else none

/-- The quotation that a text begins with behind one blank: its mark, and what it holds. -/
def object? : List Symbol → Option (Char × String)
  | .char ' ' :: .quoted mark s :: _ => some (mark, String.ofList s)
  | _ => none

/-- The prepositions of a text, each with the quotation that it stands before. -/
def prepositions (l : List Symbol) : List (Preposition × Option (Char × String)) :=
  (wordsOf l).filterMap fun w => (Preposition.ofWord? w.1).map fun preposition =>
    (preposition, object? w.2)

theorem object?_append_cons (l : List Symbol) (c : Char) {m : List Symbol} (hm : BeginsPlain m) :
    object? (l ++ .char c :: m) = object? l := by
  -- The first two symbols decide, and without a quotation in front `m` has no part in it.
  match l with
  | [] =>
    cases m with
    | nil => simp [object?]
    | cons x m =>
      cases x with
      | char e => simp [object?]
      | quoted mark s => simp [BeginsPlain, Symbol.isQuoted] at hm
  | [x] => simp [object?]
  | .quoted .. :: y :: l => simp [object?]
  | .char e :: .char f :: l => simp [object?]
  | .char e :: .quoted mark s :: l => by_cases h : e = ' ' <;> simp [object?, h]

theorem prepositions_append_cons {c : Char} (hc : isWordCharacter c = false) (l : List Symbol)
    {m : List Symbol} (hm : BeginsPlain m) :
    prepositions (l ++ .char c :: m) = prepositions l ++ prepositions m := by
  rw [prepositions, wordsOf_append_cons hc, List.filterMap_append, List.filterMap_map]
  congr 2
  funext w
  rw [Function.comp_apply, object?_append_cons _ _ hm]

theorem beginsPlain_map_char_append (s : List Char) {l : List Symbol} (h : BeginsPlain l) :
    BeginsPlain (s.map .char ++ l) := by
  cases s with
  | nil => exact h
  | cons c s => simp [BeginsPlain, Symbol.isQuoted]

/-- Texts that are kept apart by characters of no word have their own prepositions each. -/
theorem prepositions_append_gap {gap : List Char} (hne : gap ≠ [])
    (h : gap.any isWordCharacter = false) (l : List Symbol) {m : List Symbol} (hm : BeginsPlain m) :
    prepositions (l ++ (gap.map .char ++ m)) = prepositions l ++ prepositions m := by
  induction gap generalizing l with
  | nil => exact absurd rfl hne
  | cons c gap ih =>
    rw [List.any_cons, Bool.or_eq_false_iff] at h
    obtain ⟨hc, hrest⟩ := h
    rw [List.map_cons, List.cons_append,
      prepositions_append_cons hc l (beginsPlain_map_char_append gap hm)]
    cases gap with
    | nil => rfl
    | cons e gap => exact congrArg _ (ih (List.cons_ne_nil _ _) hrest [])

theorem prepositions_intercalate {gap : List Char} (hne : gap ≠ [])
    (h : gap.any isWordCharacter = false) (texts : List (List Char)) :
    prepositions ((gap.intercalate texts).map .char) = texts.flatMap fun s =>
      prepositions (s.map .char) := by
  induction texts with
  | nil => rfl
  | cons s texts ih =>
    cases texts with
    | nil => simp
    | cons t texts =>
      have hplain : BeginsPlain ((gap.intercalate (t :: texts)).map .char) := by
        simpa using beginsPlain_map_char_append (gap.intercalate (t :: texts)) (l := [])
          (by simp [BeginsPlain])
      rw [List.intercalate_cons_cons, List.append_assoc, List.map_append, List.map_append,
        prepositions_append_gap hne h _ hplain, ih]
      rfl

theorem wordsOf_map_char {w : List Char} (hne : w ≠ []) (h : ∀ c ∈ w, isWordCharacter c) :
    wordsOf (w.map .char) = [(w, [])] := by
  induction w with
  | nil => exact absurd rfl hne
  | cons c w ih =>
    obtain ⟨hc, hw⟩ := List.forall_mem_cons.mp h
    cases w with
    | nil => simp [wordsOf, hc]
    | cons e w =>
      have he : isWordCharacter e := hw e List.mem_cons_self
      rw [List.map_cons, wordsOf, if_pos hc, if_pos (by simpa [Symbol.isInWord] using he),
        ih (List.cons_ne_nil _ _) hw]
      rfl

theorem prepositions_map_char {w : List Char} (h : ∀ c ∈ w, isWordCharacter c) :
    prepositions (w.map .char) =
      ((Preposition.ofWord? w).map fun preposition => (preposition, none)).toList := by
  cases w with
  | nil => rfl
  | cons c w =>
    rw [prepositions, wordsOf_map_char (List.cons_ne_nil _ _) h]
    cases hpreposition : Preposition.ofWord? (c :: w) <;> simp [hpreposition, object?]

theorem mem_and_ne_of_mem_splitOn {a : Char} {s w : List Char} (h : w ∈ s.splitOn a) :
    ∀ c ∈ w, c ∈ s ∧ c ≠ a := by
  induction s generalizing w with
  | nil =>
    rw [List.splitOn_nil, List.mem_singleton] at h
    simp [h]
  | cons e s ih =>
    rw [List.splitOn_cons_eq_if_modifyHead] at h
    split_ifs at h with he
    · obtain rfl | h := List.mem_cons.mp h
      · simp
      · exact fun c hc => (ih h c hc).imp_left (List.mem_cons_of_mem e)
    · obtain ⟨first, rest, hsplit⟩ := List.exists_cons_of_ne_nil (List.splitOn_ne_nil a s)
      rw [hsplit, List.modifyHead_cons, List.mem_cons] at h
      intro c hc
      obtain rfl | h := h
      · obtain rfl | hc := List.mem_cons.mp hc
        · exact ⟨List.mem_cons_self, by simpa using he⟩
        · exact (ih (hsplit ▸ List.mem_cons_self) c hc).imp_left (List.mem_cons_of_mem e)
      · exact (ih (hsplit ▸ List.mem_cons_of_mem first h) c hc).imp_left (List.mem_cons_of_mem e)

theorem prepositions_chars_of_isActionWord {action : String} (h : isActionWord action) :
    prepositions (chars action) =
      ((action.toList.splitOn ' ').filterMap Preposition.ofWord?).map fun preposition =>
        (preposition, none) := by
  have hwords : ∀ w ∈ action.toList.splitOn ' ', ∀ c ∈ w, isWordCharacter c := by
    intro w hw c hc
    obtain ⟨hmem, hblank⟩ := mem_and_ne_of_mem_splitOn hw c hc
    have hletter := ((isActionWord_iff.mp h).2 c hmem).resolve_right hblank
    simp [isWordCharacter, Char.isAlphanum, hletter]
  have hchars : chars action = ([' '].intercalate (action.toList.splitOn ' ')).map .char := by
    rw [List.intercalate_splitOn, chars]
  rw [hchars, prepositions_intercalate (by decide) (by decide), List.map_filterMap,
    List.filterMap_eq_flatMap_toList]
  exact List.flatMap_congr fun w hw => prepositions_map_char (hwords w hw)

namespace Dialect

/-- The prepositions of a statement outside of its quotations. -/
def prepositions (d : Dialect) (text : String) : List (Preposition × Option (Char × String)) :=
  SchemaDoc.prepositions (d.symbols text.toList)

theorem prepositions_eq_of_isPlain (d : Dialect) {text : String} (h : isPlain text) :
    d.prepositions text = SchemaDoc.prepositions (chars text) := by
  rw [prepositions, (Spells.plain h).symbols_eq]

def targetSymbols (d : Dialect) (table user : String) : List Symbol :=
  chars "ON " ++ .name d table :: (chars " TO " ++ [.quoted d.granteeMark user.toList])

theorem prepositions_targetSymbols (d : Dialect) (table user : String) :
    SchemaDoc.prepositions (d.targetSymbols table user) =
      [(.on, some (d.quoteMark, table)), (.to, some (d.granteeMark, user))] := by
  have hwords : wordsOf (d.targetSymbols table user) =
      [("ON".toList, .char ' ' :: .name d table ::
        (chars " TO " ++ [.quoted d.granteeMark user.toList])),
        ("TO".toList, [.char ' ', .quoted d.granteeMark user.toList])] := rfl
  have hon : Preposition.ofWord? "ON".toList = some .on := by decide
  have hto : Preposition.ofWord? "TO".toList = some .to := by decide
  simp only [SchemaDoc.prepositions, hwords, List.filterMap_cons, hon, hto, Option.map_some,
    List.filterMap_nil, object?, Symbol.name, String.ofList_toList]

/-- A grant has the prepositions of its actions and the two that it is held together by. -/
theorem prepositions_grantText (d : Dialect) {actions : List String}
    (h : ∀ a ∈ actions, isActionWord a) (table user : String) :
    d.prepositions (d.grantText actions table user) = actions.flatMap d.prepositions ++
      [(.on, some (d.quoteMark, table)), (.to, some (d.granteeMark, user))] := by
  have hsymbols : chars "GRANT " ++ (chars (", ".intercalate actions ++ " ON ") ++ .name d table ::
      (chars " TO " ++ [.quoted d.granteeMark user.toList])) = chars "GRANT" ++ ([' '].map .char ++
        (chars (", ".intercalate actions) ++ ([' '].map .char ++ d.targetSymbols table user))) := by
    simp [chars, targetSymbols]
  have hactions : SchemaDoc.prepositions (chars (", ".intercalate actions)) =
      actions.flatMap d.prepositions := by
    rw [chars, String.toList_intercalate, prepositions_intercalate (by decide) (by decide),
      List.flatMap_map]
    exact List.flatMap_congr fun a ha =>
      (d.prepositions_eq_of_isPlain (isPlain_of_isActionWord (h a ha))).symm
  have hblank : [' '].any isWordCharacter = false := by decide
  have htarget : BeginsPlain (d.targetSymbols table user) := beginsPlain_chars_append (by decide) _
  have hrest : BeginsPlain (chars (", ".intercalate actions) ++
      ([' '].map .char ++ d.targetSymbols table user)) :=
    beginsPlain_map_char_append _ (beginsPlain_map_char_append _ htarget)
  rw [prepositions, (d.spells_grantText h table user).symbols_eq, hsymbols,
    prepositions_append_gap (List.cons_ne_nil _ _) hblank _ hrest,
    prepositions_append_gap (List.cons_ne_nil _ _) hblank _ htarget, hactions,
      prepositions_targetSymbols]
  rfl

end Dialect

namespace Permission

theorem mem_skippedActions {p : Permission} {action : String} :
    action ∈ p.skippedActions ↔ action ∈ p.trimmedActions ∧ ¬isActionWord action := by
  simp [skippedActions]

end Permission

namespace Table

/-- The prepositions that belong to the grant for a block. -/
def ownPrepositions (d : Dialect) (t : Table) (p : Permission) :
    List (Preposition × Option (Char × String)) :=
  [(.on, some (d.quoteMark, t.name)), (.to, some (d.granteeMark, p.user))]

theorem prepositions_of_grant? {d : Dialect} {t : Table} {p : Permission} {text : String}
    (h : t.grant? d p = some text) :
    d.prepositions text = p.grantedActions.flatMap d.prepositions ++ t.ownPrepositions d p := by
  rw [grant?] at h
  split_ifs at h with hnone
  cases h
  exact d.prepositions_grantText (fun a ha => (Permission.mem_grantedActions.mp ha).2) t.name p.user

/-- The grant for a block has an ON before the table and a TO before the user of the block, and in
front of these each ON and TO that is a word of an action which is granted. So it has no others
exactly if each action with an ON or TO of its own is skipped. -/
theorem grant_keeps_shape_iff {d : Dialect} {t : Table} {p : Permission} {text : String}
    (h : t.grant? d p = some text) :
    d.prepositions text = p.grantedActions.flatMap d.prepositions ++ t.ownPrepositions d p ∧
      (∀ a ∈ p.grantedActions, d.prepositions a =
        ((a.toList.splitOn ' ').filterMap Preposition.ofWord?).map fun preposition =>
          (preposition, none)) ∧
      (d.prepositions text = t.ownPrepositions d p ↔
        ∀ a ∈ p.trimmedActions, d.prepositions a ≠ [] → a ∈ p.skippedActions) := by
  refine ⟨prepositions_of_grant? h, fun a ha => ?_, ?_⟩
  · have hword := (Permission.mem_grantedActions.mp ha).2
    rw [d.prepositions_eq_of_isPlain (isPlain_of_isActionWord hword),
      prepositions_chars_of_isActionWord hword]
  · rw [prepositions_of_grant? h, List.append_left_eq_self, List.flatMap_eq_nil_iff]
    simp only [Permission.mem_grantedActions, Permission.mem_skippedActions,
      Permission.trimmedActions, List.mem_map]
    constructor
    · intro hnone a ha hadds
      exact ⟨ha, fun hword => hadds (hnone a ⟨ha, hword⟩)⟩
    · rintro hskipped a ⟨ha, hword⟩
      by_contra hadds
      exact (hskipped a ha hadds).2 hword

/-- Names that have ON and TO in them, and actions with parts that are like them. -/
def lookAlike : Table where
  name := "a ON b"
  columns := []
  permissions := [⟨"TO c", [" MONITOR ", "on;to", "TOTAL PRIVILEGES"]⟩]

theorem grant_keeps_shape_iff_lookAlike :
    ∃ p text, lookAlike.permissions = [p] ∧ lookAlike.grant? .postgres p = some text ∧
      Dialect.postgres.prepositions text =
        [(.on, some ('"', "a ON b")), (.to, some ('"', "TO c"))] ∧
      p.skippedActions = ["on;to"] := by
  let p : Permission := ⟨"TO c", [" MONITOR ", "on;to", "TOTAL PRIVILEGES"]⟩
  have htrimmed : p.trimmedActions = ["MONITOR", "on;to", "TOTAL PRIVILEGES"] := by decide
  have hactions : p.grantedActions = ["MONITOR", "TOTAL PRIVILEGES"] := by decide
  have hskipped : p.skippedActions = ["on;to"] := by decide
  obtain ⟨text, h⟩ : ∃ text, lookAlike.grant? .postgres p = some text := by simp [grant?, hactions]
  obtain ⟨-, hgranted, hshape⟩ := grant_keeps_shape_iff h
  refine ⟨p, text, rfl, h, hshape.mpr ?_, hskipped⟩
  have hnone : ∀ a ∈ p.grantedActions, (a.toList.splitOn ' ').filterMap Preposition.ofWord? =
      [] := by decide
  intro a ha hadds
  have hnot : a ∉ p.grantedActions := fun hgrant =>
      hadds (by rw [hgranted a hgrant, hnone a hgrant, List.map_nil])
  rw [htrimmed] at ha
  rw [hactions] at hnot
  rw [hskipped]
  grind

end Table

/-- An action of letters and blanks brings an ON and a TO into the grant. -/
theorem Database.action_adds_prepositions :
    ∃ db text, Database.ofElement
          { tag := "database"
            children := [
              { tag := "table"
                attributes := [("name", "t")]
                children := [
                  { tag := "permissions"
                    attributes := [("user", "u")]
                    children := [{ tag := "permission", text := some "SELECT ON x TO y" }] }] }] } =
        .ok db ∧
      db.grants .postgres = [text] ∧ text = "GRANT SELECT ON x TO y ON \"t\" TO \"u\"" ∧
      db.grantEvents .postgres = [] ∧
      Dialect.postgres.prepositions text =
        [(.on, none), (.to, none), (.on, some ('"', "t")), (.to, some ('"', "u"))] := by
  let p : Permission := ⟨"u", ["SELECT ON x TO y"]⟩
  let t : Table := ⟨"t", [], [p]⟩
  let text := "GRANT SELECT ON x TO y ON \"t\" TO \"u\""
  have hgrant : t.grant? .postgres p = some text := by decide
  have hword : isActionWord "SELECT ON x TO y" := by decide
  refine ⟨⟨[t]⟩, text, rfl, ?_, rfl, ?_, ?_⟩
  · simp [Database.grants, Table.grants, t, Dialect.supportsGrants, hgrant]
  · decide
  · have hactions : p.grantedActions = ["SELECT ON x TO y"] := by decide
    rw [Table.prepositions_of_grant? hgrant, hactions, List.flatMap_singleton,
      Dialect.prepositions_eq_of_isPlain _ (isPlain_of_isActionWord hword),
      prepositions_chars_of_isActionWord hword]
    decide

end SchemaDoc
