import Mathlib.Data.List.Sort
import Mathlib.Tactic.TFAE
import Mathlib.Data.String.Basic
import SchemaDoc.Proofs.Sql.Granting

/-!
# Permissions put together in other ways

What a user is granted on a table is a set of actions, shown in the order of code points, and each
block has such a set of its own. A set of actions knows neither an order of its actions nor repeats
(`Text.ascending_eq_iff`). So what a user is granted stays the same when the blocks are rearranged,
when those of other users come or go, and when blocks are divided
(`Table.permission_queries_agree`).
-/
namespace SchemaDoc

namespace Text

/-- The order of code points: of two texts that differ in one, the lesser one decides, and a front
comes first. -/
def Precedes (s t : String) : Prop :=
  s.toList.map Char.toNat < t.toList.map Char.toNat

theorem map_toNat_lt_iff {a b : List Char} : a.map Char.toNat < b.map Char.toNat ↔ a < b := by
  induction a generalizing b with
  | nil => cases b <;> simp
  | cons c a ih =>
    cases b with
    | nil => simp
    | cons d b =>
      have hchar : c.toNat < d.toNat ↔ c < d := Iff.rfl
      rw [List.map_cons, List.map_cons, List.cons_lt_cons_iff, List.cons_lt_cons_iff, ih, hchar,
        Char.toNat_inj]

theorem precedes_iff {s t : String} : Precedes s t ↔ s < t := by
  rw [Precedes, map_toNat_lt_iff, String.lt_iff_toList_lt]

theorem pairwise_insertAscending {l : List String} (h : l.Pairwise (· < ·)) (s : String) :
    (insertAscending s l).Pairwise (· < ·) := by
  induction l with
  | nil => simp [insertAscending]
  | cons t rest ih =>
    obtain ⟨hhead, hrest⟩ := List.pairwise_cons.mp h
    by_cases hlt : s < t
    · rw [insertAscending, if_pos hlt, List.pairwise_cons, List.forall_mem_cons]
      exact ⟨⟨hlt, fun u hu => hlt.trans (hhead u hu)⟩, h⟩
    · by_cases heq : s = t
      · rwa [insertAscending, if_neg hlt, if_pos heq]
      · have hgt : t < s := lt_of_le_of_ne (not_lt.mp hlt) (Ne.symm heq)
        rw [insertAscending, if_neg hlt, if_neg heq, List.pairwise_cons]
        refine ⟨fun u hu => ?_, ih hrest⟩
        rcases mem_insertAscending.mp hu with rfl | hu
        · exact hgt
        · exact hhead u hu

theorem pairwise_ascending (l : List String) : (ascending l).Pairwise (· < ·) := by
  induction l with
  | nil => exact .nil
  | cons s rest ih => exact pairwise_insertAscending ih s

theorem ascending_eq_iff {l m : List String} : ascending l = ascending m ↔ ∀ s, s ∈ l ↔ s ∈ m := by
  constructor
  · intro h s
    rw [← mem_ascending, h, mem_ascending]
  · intro h
    refine (pairwise_ascending l).eq_of_mem_iff (pairwise_ascending m) fun s => ?_
    rw [mem_ascending, mem_ascending, h]

end Text

/-- A step to actions with the same members: one is listed once more, or all are put into another
order. -/
inductive Relisting : List String → List String → Prop
  | repeated {action : String} {actions : List String} (h : action ∈ actions) :
      Relisting actions (action :: actions)
  | reordered {actions actions' : List String} (h : actions.Perm actions') :
      Relisting actions actions'

/-- A step to blocks that are the same to a user: the actions of a block are listed in another way,
the blocks are put into another order, or one of another user is added. -/
inductive Rearrangement (user : String) : List Permission → List Permission → Prop
  | relisted {actions actions' : List String} (h : Relisting actions actions') (owner : String)
      (before behind : List Permission) :
      Rearrangement user (before ++ ⟨owner, actions⟩ :: behind)
        (before ++ ⟨owner, actions'⟩ :: behind)
  | reordered {blocks blocks' : List Permission} (h : blocks.Perm blocks') :
      Rearrangement user blocks blocks'
  | joined {p : Permission} (h : p.user ≠ user) (before behind : List Permission) :
    Rearrangement user (before ++ behind) (before ++ p :: behind)

/-- A step to blocks that grant a user the same: a block may also be divided into several of its
user. -/
inductive Redivision (user : String) : List Permission → List Permission → Prop
  | rearranged {blocks blocks' : List Permission} (h : Rearrangement user blocks blocks') :
    Redivision user blocks blocks'
  | divided (owner : String) (parts : List (List String)) (before behind : List Permission) :
      Redivision user (before ++ ⟨owner, parts.flatten⟩ :: behind)
        (before ++ (parts.map (⟨owner, ·⟩) ++ behind))

theorem lists_append {a b : List Permission} {user action : String} :
    Lists (a ++ b) user action ↔ Lists a user action ∨ Lists b user action := by
  simp only [Lists, List.mem_append, or_and_right, exists_or]

theorem Relisting.mem_iff {a b : List String} (h : Relisting a b) (action : String) :
    action ∈ a ↔ action ∈ b := by
  cases h with
  | repeated h =>
    rw [List.mem_cons, iff_or_self]
    rintro rfl
    exact h
  | reordered h => exact h.mem_iff

theorem Relisting.actionSet_eq {a b : List String} (h : Relisting a b) (owner : String) :
    Permission.actionSet ⟨owner, a⟩ = Permission.actionSet ⟨owner, b⟩ :=
  Text.ascending_eq_iff.mpr h.mem_iff

theorem Rearrangement.lists_iff {user : String} {l m : List Permission} (h : Rearrangement user l m)
    (action : String) : Lists l user action ↔ Lists m user action := by
  cases h with
  | relisted h owner before behind =>
    rw [lists_append, lists_append, lists_cons, lists_cons, h.mem_iff]
  | reordered h => exact exists_congr fun p => and_congr_left' h.mem_iff
  | joined h before behind =>
    rw [lists_append, lists_append, lists_cons]
    simp [h]

theorem Rearrangement.perm_actionSets {user : String} {l m : List Permission}
    (h : Rearrangement user l m) :
    ((l.filter (·.user == user)).map (·.actionSet)).Perm
      ((m.filter (·.user == user)).map (·.actionSet)) := by
  cases h with
  | relisted h owner before behind =>
    rw [List.filter_append, List.filter_append, List.filter_cons, List.filter_cons]
    split_ifs with howner
    · rw [List.map_append, List.map_append, List.map_cons, List.map_cons, h.actionSet_eq]
    · rfl
  | reordered h => exact (h.filter _).map _
  | joined h before behind =>
    rw [List.filter_append, List.filter_append, List.filter_cons_of_neg (by simpa using h)]

theorem lists_parts_iff {owner user action : String} {parts : List (List String)} :
    Lists (parts.map (⟨owner, ·⟩)) user action ↔ owner = user ∧ action ∈ parts.flatten := by
  constructor
  · rintro ⟨p, hp, huser, haction⟩
    obtain ⟨part, hpart, rfl⟩ := List.mem_map.mp hp
    exact ⟨huser, List.mem_flatten_of_mem hpart haction⟩
  · rintro ⟨huser, haction⟩
    obtain ⟨part, hpart, haction⟩ := List.mem_flatten.mp haction
    exact ⟨_, List.mem_map_of_mem hpart, huser, haction⟩

theorem Redivision.lists_iff {user : String} {l m : List Permission} (h : Redivision user l m)
    (action : String) : Lists l user action ↔ Lists m user action := by
  cases h with
  | rearranged h => exact h.lists_iff action
  | divided owner parts before behind =>
    rw [lists_append, lists_append, lists_append, lists_cons, lists_parts_iff]

theorem eqvGen_of_steps {α β : Type} {step : α → α → Prop} {same : β → β → Prop}
    (hsame : Equivalence same) {f : α → β} (hstep : ∀ a b, step a b → same (f a) (f b)) {a b : α}
    (h : Relation.EqvGen step a b) : same (f a) (f b) :=
  (hsame.comap f).eqvGen_iff.mp (h.mono hstep)

namespace Table

theorem grantsFor_eq_of_lists_iff {t t' : Table} {user : String}
    (h : ∀ action, Lists t.permissions user action ↔ Lists t'.permissions user action) :
    t.grantsFor user = t'.grantsFor user := by
  rw [grantsFor, grantsFor, Text.ascending_eq_iff]
  intro action
  rw [← Text.mem_ascending, ← grantsFor, ← lists_permissions_iff, h,
    lists_permissions_iff, grantsFor, Text.mem_ascending]

theorem grantsFor_of_redivided {t : Table} {user : String} {blocks : List Permission}
    (h : Relation.EqvGen (Redivision user) t.permissions blocks) :
    { t with permissions := blocks }.grantsFor user = t.grantsFor user := by
  have hstep : ∀ l m, Redivision user l m →
      { t with permissions := l }.grantsFor user = { t with permissions := m }.grantsFor user :=
    fun l m hlm => grantsFor_eq_of_lists_iff hlm.lists_iff
  exact (eqvGen_of_steps eq_equivalence hstep h).symm

theorem perm_actionSets_of_rearranged {t : Table} {user : String} {blocks : List Permission}
    (h : Relation.EqvGen (Rearrangement user) t.permissions blocks) :
    (({ t with permissions := blocks }.permissionsFor user).map Permission.actionSet).Perm
      ((t.permissionsFor user).map Permission.actionSet) := by
  have hstep : ∀ l m, Rearrangement user l m →
    ((l.filter (·.user == user)).map Permission.actionSet).Perm
      ((m.filter (·.user == user)).map Permission.actionSet) := fun l m hlm => hlm.perm_actionSets
  exact (eqvGen_of_steps (List.Perm.eqv _) hstep h).symm

theorem actionSet_of_relisted {p : Permission} {actions : List String}
    (h : Relation.EqvGen Relisting p.actions actions) :
    { p with actions }.actionSet = p.actionSet := by
  have hstep : ∀ a b, Relisting a b → Text.ascending a = Text.ascending b :=
    fun a b hab => Text.ascending_eq_iff.mpr hab.mem_iff
  exact (eqvGen_of_steps eq_equivalence hstep h).symm

theorem ascending_actionSets (p : Permission) {parts : List (List String)}
    (h : parts.flatten = p.actions) :
    Text.ascending (parts.flatMap fun part => { p with actions := part }.actionSet) =
      p.actionSet := by
  rw [Permission.actionSet, Text.ascending_eq_iff]
  intro action
  simp only [List.mem_flatMap, Permission.actionSet, Text.mem_ascending, ← h, List.mem_flatten]

/-- The queries for permissions agree: a user is granted the actions that some block of the user
allows, which are those of the action sets of these blocks and those that the blocks list. What a
user is granted and each action set ascend in the order of code points. A user is granted the same
when actions are repeated, when actions or blocks are put into another order, when blocks are
divided, and when blocks of other users are added. Without a division the action sets of the user's
blocks stay the same as well, and with one they are shared out. -/
theorem permission_queries_agree (t : Table) (user : String) :
    (∀ action, [action ∈ t.grantsFor user, ∃ p ∈ t.permissionsFor user, p.allows action,
        ∃ p ∈ t.permissionsFor user, action ∈ p.actionSet,
        ∃ p ∈ t.permissions, p.user = user ∧ action ∈ p.actions].TFAE) ∧
      (t.grantsFor user).Pairwise Text.Precedes ∧
      (∀ p : Permission, p.actionSet.Pairwise Text.Precedes) ∧
      (∀ blocks, Relation.EqvGen (Redivision user) t.permissions blocks →
        { t with permissions := blocks }.grantsFor user = t.grantsFor user) ∧
      (∀ blocks, Relation.EqvGen (Rearrangement user) t.permissions blocks →
        (({ t with permissions := blocks }.permissionsFor user).map Permission.actionSet).Perm
          ((t.permissionsFor user).map Permission.actionSet)) ∧
      ∀ p : Permission,
        (∀ actions, Relation.EqvGen Relisting p.actions actions →
          { p with actions }.actionSet = p.actionSet) ∧
        ∀ parts : List (List String), parts.flatten = p.actions →
          Text.ascending (parts.flatMap fun part => { p with actions := part }.actionSet) =
            p.actionSet := by
  refine ⟨fun action => ?agree, ?grants, fun p => ?sets, fun _ => grantsFor_of_redivided,
    fun _ => perm_actionSets_of_rearranged, fun p =>
      ⟨fun _ => actionSet_of_relisted, fun _ => ?parts⟩⟩
  case agree =>
    tfae_have 1 ↔ 2 := mem_grantsFor
    tfae_have 2 ↔ 3 := by simp only [Permission.mem_actionSet]
    tfae_have 1 ↔ 4 := lists_permissions_iff.symm
    tfae_finish
  case grants => exact (Text.pairwise_ascending _).imp Text.precedes_iff.mpr
  case sets => exact (Text.pairwise_ascending _).imp Text.precedes_iff.mpr
  case parts => exact ascending_actionSets p

/-- A user with two blocks, and another user between them. -/
def roster : Table where
  name := "t"
  columns := []
  permissions := [⟨"u", ["SELECT", "INSERT"]⟩, ⟨"v", ["DELETE"]⟩, ⟨"u", ["é", "z", "SELECT"]⟩]

/-- The blocks of `roster` in another order, without the other user and with an action repeated. -/
def rearrangedRoster : List Permission :=
  [⟨"u", ["é", "z", "SELECT"]⟩, ⟨"u", ["INSERT", "SELECT", "INSERT"]⟩]

/-- The blocks of `roster` in another order, the first one divided, and one of a third user. -/
def dividedRoster : List Permission :=
  [⟨"w", ["ALL"]⟩, ⟨"u", ["é", "z", "SELECT"]⟩, ⟨"u", ["SELECT"]⟩, ⟨"u", ["INSERT"]⟩,
    ⟨"v", ["DELETE"]⟩]

theorem eqvGen_relisting_inserts :
    Relation.EqvGen Relisting ["SELECT", "INSERT"] ["INSERT", "SELECT", "INSERT"] :=
  .rel _ _ (.repeated (by decide))

theorem eqvGen_rearrangement_roster :
    Relation.EqvGen (Rearrangement "u") roster.permissions rearrangedRoster := by
  have hrelisted : Rearrangement "u" roster.permissions
      [⟨"u", ["INSERT", "SELECT", "INSERT"]⟩, ⟨"v", ["DELETE"]⟩, ⟨"u", ["é", "z", "SELECT"]⟩] :=
    .relisted (.repeated (by decide)) "u" [] _
  have hjoined : Rearrangement "u" [⟨"u", ["INSERT", "SELECT", "INSERT"]⟩,
    ⟨"u", ["é", "z", "SELECT"]⟩]
      [⟨"u", ["INSERT", "SELECT", "INSERT"]⟩, ⟨"v", ["DELETE"]⟩, ⟨"u", ["é", "z", "SELECT"]⟩] :=
    .joined (by decide) [_] _
  exact .trans _ _ _ (.rel _ _ hrelisted) (.trans _ _ _ (.symm _ _ (.rel _ _ hjoined))
    (.rel _ _ (.reordered (by decide))))

theorem eqvGen_redivision_roster :
    Relation.EqvGen (Redivision "u") roster.permissions dividedRoster := by
  have hdivided : Redivision "u" roster.permissions
      [⟨"u", ["SELECT"]⟩, ⟨"u", ["INSERT"]⟩, ⟨"v", ["DELETE"]⟩, ⟨"u", ["é", "z", "SELECT"]⟩] :=
    .divided "u" [["SELECT"], ["INSERT"]] [] _
  have hjoined : Rearrangement "u"
      [⟨"u", ["SELECT"]⟩, ⟨"u", ["INSERT"]⟩, ⟨"v", ["DELETE"]⟩, ⟨"u", ["é", "z", "SELECT"]⟩]
      [⟨"w", ["ALL"]⟩, ⟨"u", ["SELECT"]⟩, ⟨"u", ["INSERT"]⟩, ⟨"v", ["DELETE"]⟩,
          ⟨"u", ["é", "z", "SELECT"]⟩] :=
    .joined (by decide) [] _
  exact .trans _ _ _ (.rel _ _ hdivided) (.trans _ _ _ (.rel _ _ (.rearranged hjoined))
    (.rel _ _ (.rearranged (.reordered (by decide)))))

theorem permission_queries_agree_roster :
    { roster with permissions := dividedRoster }.grantsFor "u" = ["INSERT", "SELECT", "z", "é"] ∧
      (({ roster with permissions := rearrangedRoster }.permissionsFor "u").map
        Permission.actionSet).Perm
        [["INSERT", "SELECT"], ["SELECT", "z", "é"]] ∧
      Permission.actionSet ⟨"u", ["INSERT", "SELECT", "INSERT"]⟩ = ["INSERT", "SELECT"] ∧
      Text.ascending (Permission.actionSet ⟨"u", ["SELECT"]⟩ ++
        Permission.actionSet ⟨"u", ["INSERT"]⟩) =
        ["INSERT", "SELECT"] := by
  obtain ⟨-, -, -, hgrants, hsets, hblock⟩ := permission_queries_agree roster "u"
  obtain ⟨hrelisted, hparts⟩ := hblock ⟨"u", ["SELECT", "INSERT"]⟩
  refine ⟨?_, hsets _ eqvGen_rearrangement_roster, ?_, ?_⟩
  · rw [hgrants _ eqvGen_redivision_roster]
    decide
  · exact hrelisted _ eqvGen_relisting_inserts
  · exact hparts [["SELECT"], ["INSERT"]] rfl

def oneBlock : Table where
  name := "t"
  columns := []
  permissions := [⟨"u", ["SELECT", "INSERT"]⟩]

/-- The block of `oneBlock`, divided. -/
def twoBlocks : List Permission :=
  [⟨"u", ["SELECT"]⟩, ⟨"u", ["INSERT"]⟩]

/-- What a user is granted stays the same when a block is divided, and the action sets do not. -/
theorem divided_block_changes_actionSets :
    Redivision "u" oneBlock.permissions twoBlocks ∧
      { oneBlock with permissions := twoBlocks }.grantsFor "u" = oneBlock.grantsFor "u" ∧
      (oneBlock.permissionsFor "u").map Permission.actionSet = [["INSERT", "SELECT"]] ∧
      ({ oneBlock with permissions := twoBlocks }.permissionsFor "u").map Permission.actionSet =
        [["SELECT"], ["INSERT"]] :=
  ⟨.divided "u" [["SELECT"], ["INSERT"]] [] [], by decide, by decide, by decide⟩

end Table

end SchemaDoc
