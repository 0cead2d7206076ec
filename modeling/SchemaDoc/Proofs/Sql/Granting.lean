import Mathlib.Logic.Relation
import SchemaDoc.Proofs.Sql.Spelling

/-!
# What grants say

A GRANT statement is read from its front: the actions up to the word before the first quotation,
then the table, then the user. What is read from the statement for a block is what the block grants
(`Dialect.readGrant?_grantText`), so a user is granted what the blocks of exactly this user list, as
far as it consists of words, however the blocks are put together (`Table.mem_grantedTo_iff`).
-/
namespace SchemaDoc

/-- What a GRANT statement says. -/
structure Grant where
  actions : List String
  table : String
  user : String
  deriving DecidableEq, Repr

def splitAtCommas : List Char → List (List Char)
  | [] => [[]]
  | ',' :: ' ' :: s => [] :: splitAtCommas s
  | c :: s => (splitAtCommas s).modifyHead (c :: ·)

theorem splitAtCommas_append {w : List Char} (h : ',' ∉ w) (s : List Char) :
    splitAtCommas (w ++ ',' :: ' ' :: s) = w :: splitAtCommas s := by
  induction w with
  | nil => rfl
  | cons c w ih =>
    rw [List.mem_cons, not_or] at h
    simp [splitAtCommas, Ne.symm h.1, ih h.2]

theorem splitAtCommas_of_not_mem {w : List Char} (h : ',' ∉ w) : splitAtCommas w = [w] := by
  induction w with
  | nil => rfl
  | cons c w ih =>
    rw [List.mem_cons, not_or] at h
    simp [splitAtCommas, Ne.symm h.1, ih h.2]

theorem splitAtCommas_intercalate {words : List (List Char)} (hne : words ≠ [])
    (h : ∀ w ∈ words, ',' ∉ w) : splitAtCommas ([',', ' '].intercalate words) = words := by
  induction words with
  | nil => exact absurd rfl hne
  | cons w words ih =>
    obtain ⟨hw, hrest⟩ := List.forall_mem_cons.mp h
    cases words with
    | nil => simpa using splitAtCommas_of_not_mem hw
    | cons v words =>
      rw [List.intercalate_cons_cons, List.append_assoc]
      exact (splitAtCommas_append hw _).trans (congrArg (w :: ·) (ih (List.cons_ne_nil _ _) hrest))

/-- The characters up to the first quotation of a text, and what follows them. -/
def front : List Symbol → List Char × List Symbol
  | .char c :: l => (c :: (front l).1, (front l).2)
  | l => ([], l)

theorem front_chars_append (w : String) (d : Dialect) (s : String) (l : List Symbol) :
    front (chars w ++ .name d s :: l) = (w.toList, .name d s :: l) := by
  rw [chars]
  induction w.toList with
  | nil => rfl
  | cons c w ih => simp [front, ih]

namespace Dialect

def granteeMark (d : Dialect) : Char :=
  if d = .mysql then '\'' else d.quoteMark

/-- What a statement grants, if it is a GRANT statement from its front to its end. -/
def readGrant? (d : Dialect) (text : String) : Option Grant := do
  let l ← word? "GRANT " (d.symbols text.toList)
  let listed ← (front l).1.dropSuffix? " ON ".toList
  let (table, l) ← name? d (front l).2
  let l ← word? " TO " l
  let (user, l) ← quotation? d.granteeMark l
  if l = [] then some ⟨(splitAtCommas listed).map String.ofList, table, user⟩ else none

def grantedTo (d : Dialect) (user : String) (texts : List String) : List String :=
  ((texts.filterMap d.readGrant?).filter (·.user = user)).flatMap (·.actions)

theorem spells_grantee (d : Dialect) (user : String) :
    d.Spells [.quoted d.granteeMark user.toList] (d.grantee user) := by
  cases d with
  | mysql =>
    have hpairs : Dialect.mysql.pairs? '\'' = some ['\'', '\\'] := rfl
    constructor
    · simp [grantee, stringLiteral, granteeMark, spelled, Symbol.spell, hpairs,
        doubled_doubled_eq_doubling]
    · exact ⟨by simp [Symbol.isKnown, granteeMark, hpairs], .singleton _⟩
  | postgres => exact .quote user
  | sqlite => exact .quote user

theorem isPlain_intercalate {separator : String} (hs : isPlain separator) {l : List String}
    (hl : ∀ s ∈ l, isPlain s) : isPlain (separator.intercalate l) := by
  induction l with
  | nil => rfl
  | cons s l ih =>
    obtain ⟨hfirst, hrest⟩ := List.forall_mem_cons.mp hl
    cases l with
    | nil => simpa using hfirst
    | cons t l =>
      rw [String.intercalate_cons_cons, isPlain_append, isPlain_append, hfirst, hs, ih hrest]; rfl

theorem spells_grantText (d : Dialect) {actions : List String} (h : ∀ a ∈ actions, isActionWord a)
    (table user : String) :
    d.Spells (chars "GRANT " ++ (chars (", ".intercalate actions ++ " ON ") ++ .name d table ::
      (chars " TO " ++ [.quoted d.granteeMark user.toList]))) (d.grantText actions table user) := by
  have hlisted : isPlain (", ".intercalate actions ++ " ON ") := by
    rw [isPlain_append, isPlain_intercalate (by decide) fun a ha =>
      isPlain_of_isActionWord (h a ha)]
    decide
  have htext : d.grantText actions table user = "GRANT " ++ (", ".intercalate actions ++ " ON " ++
      (d.quote table ++ (" TO " ++ d.grantee user))) := by
    simp only [grantText, String.append_assoc]
  rw [htext]
  apply Spells.plain_append (by decide)
  apply Spells.plain_append hlisted
  apply Spells.quote_append _ _ (beginsPlain_chars_append (by decide) _)
  exact .plain_append (by decide) (d.spells_grantee user)

theorem not_comma_mem_of_isActionWord {action : String} (h : isActionWord action) :
    ',' ∉ action.toList := by
  rw [isActionWord, Bool.and_eq_true, List.all_eq_true] at h
  intro hcomma
  have := h.2 ',' hcomma
  revert this
  decide

theorem readGrant?_grantText (d : Dialect) {actions : List String} (hne : actions ≠ [])
    (h : ∀ a ∈ actions, isActionWord a) (table user : String) :
    d.readGrant? (d.grantText actions table user) = some ⟨actions, table, user⟩ := by
  have hsplit : (splitAtCommas (", ".intercalate actions).toList).map String.ofList = actions := by
    have hwords : ∀ w ∈ actions.map String.toList, ',' ∉ w := by
      rintro _ hw
      obtain ⟨a, ha, rfl⟩ := List.mem_map.mp hw
      exact not_comma_mem_of_isActionWord (h a ha)
    rw [String.toList_intercalate]
    exact (congrArg _ (splitAtCommas_intercalate (by simpa using hne) hwords)).trans (by simp)
  have hlisted : (", ".intercalate actions ++ " ON ").toList.dropSuffix? " ON ".toList =
      some (", ".intercalate actions).toList :=
    List.dropSuffix?_eq_some_iff.mpr ⟨_, String.toList_append, beq_self_eq_true _⟩
  rw [readGrant?, (d.spells_grantText h table user).symbols_eq, word?_chars_append]
  simp only [Option.bind_eq_bind, Option.bind_some, front_chars_append, hlisted, name?_name,
    word?_chars_append, quotation?_quoted, hsplit, if_true]

end Dialect

theorem isActionWord_iff {action : String} :
    isActionWord action ↔ action ≠ "" ∧ ∀ c ∈ action.toList, c.isAlpha ∨ c = ' ' := by
  simp [isActionWord]

namespace Permission

theorem mem_grantedActions {p : Permission} {action : String} :
    action ∈ p.grantedActions ↔ (∃ a ∈ p.actions, Text.trim a = action) ∧ isActionWord action := by
  rw [grantedActions, mem_withoutRepeats, List.mem_filter, trimmedActions, List.mem_map]

/-- What a block grants on a table, if it grants anything. -/
def grantOn? (table : String) (p : Permission) : Option Grant :=
  if p.grantedActions.isEmpty then none else some ⟨p.grantedActions, table, p.user⟩

theorem grantOn?_eq_some_iff {table : String} {p : Permission} {g : Grant} :
    p.grantOn? table = some g ↔ p.grantedActions ≠ [] ∧ ⟨p.grantedActions, table, p.user⟩ = g := by
  rw [grantOn?]
  split_ifs with h <;> rw [List.isEmpty_iff] at h <;> simp [h]

end Permission

/-- Some block of the user lists an action. -/
def Lists (blocks : List Permission) (user action : String) : Prop :=
  ∃ p ∈ blocks, p.user = user ∧ action ∈ p.actions

/-- One step to other blocks: a block is repeated, or its actions are shared out between two blocks
of its user, or the blocks are put into another order. -/
inductive Regrouping : List Permission → List Permission → Prop
  | repeated {p : Permission} {blocks : List Permission} (h : p ∈ blocks) :
      Regrouping blocks (p :: blocks)
  | split {user : String} {actions a b : List String}
      (h : ∀ action, action ∈ actions ↔ action ∈ a ∨ action ∈ b) (blocks : List Permission) :
      Regrouping (⟨user, actions⟩ :: blocks) (⟨user, a⟩ :: ⟨user, b⟩ :: blocks)
  | reordered {l m : List Permission} (h : l.Perm m) : Regrouping l m

/-- The same blocks put together in another way, by any number of steps in either direction, so that
repeats may be dropped and blocks of one user merged as well. -/
def Regrouped : List Permission → List Permission → Prop :=
  Relation.EqvGen Regrouping

theorem lists_cons {p : Permission} {blocks : List Permission} {user action : String} :
    Lists (p :: blocks) user action ↔
      (p.user = user ∧ action ∈ p.actions) ∨ Lists blocks user action :=
  List.exists_mem_cons_iff _ p blocks

theorem Regrouping.lists_iff {l m : List Permission} (h : Regrouping l m) (user action : String) :
    Lists l user action ↔ Lists m user action := by
  cases h with
  | repeated hp =>
    rw [lists_cons]
    constructor
    · exact .inr
    · rintro (hlisted | hrest)
      · exact ⟨_, hp, hlisted⟩
      · exact hrest
  | split h blocks => rw [lists_cons, lists_cons, lists_cons, h, and_or_left, or_assoc]
  | reordered h => exact exists_congr fun p => and_congr_left' h.mem_iff

theorem Regrouped.lists_iff {l m : List Permission} (h : Regrouped l m) (user action : String) :
    Lists l user action ↔ Lists m user action := by
  induction h with
  | rel _ _ h => exact h.lists_iff user action
  | refl => rfl
  | symm _ _ _ ih => exact ih.symm
  | trans _ _ _ _ _ ih₁ ih₂ => exact ih₁.trans ih₂

namespace Table

theorem map_readGrant?_grants {d : Dialect} (hd : d.supportsGrants) (t : Table) :
    (t.grants d).map d.readGrant? = (t.permissions.filterMap (·.grantOn? t.name)).map some := by
  rw [grants, if_pos hd, List.map_filterMap, List.map_filterMap]
  congr 1
  funext p
  rw [grant?, Permission.grantOn?]
  split_ifs with h
  · rfl
  · have hne : p.grantedActions ≠ [] := by simpa using h
    rw [Option.map_some, d.readGrant?_grantText hne fun _ ha =>
      (Permission.mem_grantedActions.mp ha).2]
    rfl

theorem exists_block_of_mem_grants {d : Dialect} (hd : d.supportsGrants) {t : Table} {text : String}
    (h : text ∈ t.grants d) :
    ∃ p ∈ t.permissions, d.readGrant? text = some ⟨p.grantedActions, t.name, p.user⟩ := by
  have hread : d.readGrant? text ∈ (t.permissions.filterMap (·.grantOn? t.name)).map some := by
    rw [← t.map_readGrant?_grants hd]
    exact List.mem_map_of_mem h
  obtain ⟨g, hg, hsome⟩ := List.mem_map.mp hread
  obtain ⟨p, hp, hgrant⟩ := List.mem_filterMap.mp hg
  obtain ⟨-, rfl⟩ := Permission.grantOn?_eq_some_iff.mp hgrant
  exact ⟨p, hp, hsome.symm⟩

theorem mem_grantedTo_iff {d : Dialect} (hd : d.supportsGrants) {t : Table} {user action : String} :
    action ∈ d.grantedTo user (t.grants d) ↔
      (∃ a, Lists t.permissions user a ∧ Text.trim a = action) ∧ isActionWord action := by
  have hread : (t.grants d).filterMap d.readGrant? =
      t.permissions.filterMap (·.grantOn? t.name) := by
    have hsame := congrArg (List.filterMap id) (t.map_readGrant?_grants hd)
    rwa [List.filterMap_map, List.filterMap_map, Function.id_comp, Function.id_comp,
      List.filterMap_some] at hsame
  simp only [Dialect.grantedTo, hread, List.mem_flatMap, List.mem_filter, List.mem_filterMap,
    Permission.grantOn?_eq_some_iff, decide_eq_true_eq]
  constructor
  · rintro ⟨_, ⟨⟨p, hp, -, rfl⟩, huser⟩, haction⟩
    obtain ⟨⟨a, ha, htrim⟩, hword⟩ := Permission.mem_grantedActions.mp haction
    exact ⟨⟨a, ⟨p, hp, huser, ha⟩, htrim⟩, hword⟩
  · rintro ⟨⟨a, ⟨p, hp, huser, ha⟩, htrim⟩, hword⟩
    have haction : action ∈ p.grantedActions :=
      Permission.mem_grantedActions.mpr ⟨⟨a, ha, htrim⟩, hword⟩
    exact ⟨_, ⟨⟨p, hp, List.ne_nil_of_mem haction, rfl⟩, huser⟩, haction⟩

theorem lists_permissions_iff {t : Table} {user action : String} :
    Lists t.permissions user action ↔ action ∈ t.grantsFor user := by
  simp only [Lists, mem_grantsFor, permissionsFor, List.mem_filter, Permission.allows,
    List.contains_iff_mem, beq_iff_eq, and_assoc]

/-- The grants of a table can be read, and what they grant a user is what the table grants the user,
trimmed, as far as it consists of letters and blanks. A grant names no action that no block of its
user lists, and what a user is granted stays the same when the blocks are put together in another
way. -/
theorem grants_agree_with_grantsFor {d : Dialect} (hd : d.supportsGrants) (t : Table)
    (user : String) :
    (∀ text ∈ t.grants d, ∃ g, d.readGrant? text = some g ∧ g.table = t.name ∧
        ∀ action ∈ g.actions, ∃ a, Lists t.permissions g.user a ∧ Text.trim a = action) ∧
      (∀ action, action ∈ d.grantedTo user (t.grants d) ↔
        (∃ a ∈ t.grantsFor user, Text.trim a = action) ∧
          action ≠ "" ∧ ∀ c ∈ action.toList, c.isAlpha ∨ c = ' ') ∧
      ∀ blocks, Regrouped t.permissions blocks → ∀ action,
        action ∈ d.grantedTo user ({ t with permissions := blocks }.grants d) ↔
          action ∈ d.grantedTo user (t.grants d) := by
  refine ⟨fun text htext => ?_, fun action => ?_, fun blocks hblocks action => ?_⟩
  · obtain ⟨p, hp, hread⟩ := exists_block_of_mem_grants hd htext
    refine ⟨_, hread, rfl, fun action haction => ?_⟩
    obtain ⟨⟨a, ha, htrim⟩, -⟩ := Permission.mem_grantedActions.mp haction
    exact ⟨a, ⟨p, hp, rfl, ha⟩, htrim⟩
  · simp only [mem_grantedTo_iff hd, isActionWord_iff, lists_permissions_iff]
  · simp only [mem_grantedTo_iff hd, hblocks.lists_iff]

/-- A user whose name could end a text in MySQL, and one who is named like the end of a grant. -/
def guestBook : Table where
  name := "guest`book"
  columns := []
  permissions := [⟨"o'ha\\ra", [" SELECT ", "a;b"]⟩, ⟨"' TO 'o'ha\\ra", ["INSERT"]⟩,
    ⟨"o'ha\\ra", ["\tUPDATE"]⟩]

/-- What the first of the two users is granted. -/
def guestBookActions : List String :=
  Dialect.mysql.grantedTo "o'ha\\ra" (guestBook.grants .mysql)

theorem grants_agree_with_grantsFor_guestBook :
    Dialect.mysql.supportsGrants ∧ "SELECT" ∈ guestBookActions ∧ " SELECT " ∉ guestBookActions ∧
      "UPDATE" ∈ guestBookActions ∧ "INSERT" ∉ guestBookActions ∧ "a;b" ∉ guestBookActions := by
  have hmysql : Dialect.mysql.supportsGrants := rfl
  obtain ⟨-, hactions, -⟩ := grants_agree_with_grantsFor hmysql guestBook "o'ha\\ra"
  have hgranted : ∀ a, a ∈ guestBook.grantsFor "o'ha\\ra" ↔
      a = " SELECT " ∨ a = "a;b" ∨ a = "\tUPDATE" := by
    intro a
    rw [← lists_permissions_iff]
    simp [Lists, guestBook, or_assoc]
  have htrim : Text.trim " SELECT " = "SELECT" ∧ Text.trim "a;b" = "a;b" ∧
      Text.trim "\tUPDATE" = "UPDATE" := by decide
  simp only [guestBookActions, hactions, hgranted, exists_eq_or_imp, exists_eq_left, htrim,
    ← isActionWord_iff]
  exact ⟨hmysql, by decide⟩

end Table

end SchemaDoc
