import Mathlib.Data.List.Induction
import SchemaDoc.Proofs.Sql.Granting

/-!
# What becomes of each permission

A permission that consists of words is granted, once for each block that lists it, and every other
one is reported, each time that it is listed. So the statements and the reports of a table share its
permissions among them, in the order of the document (`Table.permissions_are_granted_or_skipped`). A
dialect without grants has neither.
-/
namespace SchemaDoc

/-- The items of a list that do not stand further in front as well. -/
def firstOccurrences (l : List String) : List String :=
  (l.zipIdx.filter fun x => x.1 ∉ l.take x.2).map (·.1)

theorem firstOccurrences_append_singleton (l : List String) (s : String) :
    firstOccurrences (l ++ [s]) = if s ∈ l then firstOccurrences l
      else firstOccurrences l ++ [s] := by
  have hfront : l.zipIdx.filter (fun x => x.1 ∉ (l ++ [s]).take x.2) =
      l.zipIdx.filter fun x => x.1 ∉ l.take x.2 := by
    refine List.filter_congr fun x hx => ?_
    have hlt := List.snd_lt_of_mem_zipIdx hx
    rw [List.take_append_of_le_length (by omega)]
  rw [firstOccurrences, List.zipIdx_append, List.filter_append, hfront, List.map_append,
    ← firstOccurrences]
  by_cases h : s ∈ l <;> simp [h]

theorem withoutRepeats_append_singleton (l : List String) (s : String) :
    withoutRepeats (l ++ [s]) = if s ∈ l then withoutRepeats l else withoutRepeats l ++ [s] := by
  rw [withoutRepeats, List.foldl_append, ← withoutRepeats]
  simp only [List.foldl_cons, List.foldl_nil, mem_withoutRepeats]

theorem withoutRepeats_eq_firstOccurrences (l : List String) :
    withoutRepeats l = firstOccurrences l := by
  induction l using List.reverseRecOn with
  | nil => rfl
  | append_singleton l s ih =>
    rw [withoutRepeats_append_singleton, firstOccurrences_append_singleton, ih]

/-- A permission that can be granted: without the blanks around it there is something left, in
letters and blanks. -/
def IsGrantable (action : String) : Prop :=
  Text.trim action ≠ "" ∧ ∀ c ∈ (Text.trim action).toList, c.isAlpha ∨ c = ' '

instance : DecidablePred IsGrantable :=
  fun _ => decidable_of_iff _ isActionWord_iff

theorem isActionWord_trim_iff {action : String} :
    isActionWord (Text.trim action) ↔ IsGrantable action :=
  isActionWord_iff

theorem isActionWord_trim (action : String) :
    isActionWord (Text.trim action) = decide (IsGrantable action) := by
  rw [Bool.eq_iff_iff, isActionWord_trim_iff, decide_eq_true_iff]

namespace Permission

theorem grantedActions_eq (p : Permission) :
    p.grantedActions = firstOccurrences ((p.actions.filter (IsGrantable ·)).map Text.trim) := by
  have hsame : p.actions.filter (isActionWord ∘ Text.trim) = p.actions.filter (IsGrantable ·) := by
    refine List.filter_congr fun a _ => ?_
    rw [Function.comp_apply, isActionWord_trim]
  rw [grantedActions, withoutRepeats_eq_firstOccurrences, trimmedActions, List.filter_map, hsame]

theorem skippedActions_eq (p : Permission) :
    p.skippedActions = (p.actions.filter (¬IsGrantable ·)).map Text.trim := by
  have hsame : p.actions.filter ((!isActionWord ·) ∘ Text.trim) =
      p.actions.filter (¬IsGrantable ·) := by
    refine List.filter_congr fun a _ => ?_
    rw [Function.comp_apply, isActionWord_trim, decide_not]
  rw [skippedActions, trimmedActions, List.filter_map, hsame]

theorem grantedActions_eq_nil_iff {p : Permission} :
    p.grantedActions = [] ↔ ∀ a ∈ p.actions, ¬IsGrantable a := by
  rw [List.eq_nil_iff_forall_not_mem]
  constructor
  · intro h a ha hword
    exact h (Text.trim a) (mem_grantedActions.mpr ⟨⟨a, ha, rfl⟩, isActionWord_trim_iff.mpr hword⟩)
  · intro h action haction
    obtain ⟨⟨a, ha, rfl⟩, hword⟩ := mem_grantedActions.mp haction
    exact h a ha (isActionWord_trim_iff.mp hword)

end Permission

namespace Table

/-- The permissions of a table, each with the user of its block, in the order of the document. -/
def entries (t : Table) : List (String × String) :=
  t.permissions.flatMap fun p => p.actions.map fun a => (p.user, a)

theorem map_readGrant?_grants_eq {d : Dialect} (hd : d.supportsGrants) (t : Table) :
    (t.grants d).map d.readGrant? =
      (t.permissions.filter fun p => ∃ a ∈ p.actions, IsGrantable a).map fun p =>
      some ⟨firstOccurrences ((p.actions.filter (IsGrantable ·)).map Text.trim),
        t.name, p.user⟩ := by
  simp only [← Permission.grantedActions_eq]
  rw [t.map_readGrant?_grants hd, List.map_filterMap, ← List.filterMap_eq_map,
    List.filterMap_filter]
  congr 1
  funext p
  rw [Permission.grantOn?]
  by_cases h : ∃ a ∈ p.actions, IsGrantable a
  · have hne : p.grantedActions ≠ [] := fun hnil => by
      obtain ⟨a, ha, hword⟩ := h
      exact Permission.grantedActions_eq_nil_iff.mp hnil a ha hword
    simp [h, hne]
  · have hnil : p.grantedActions = [] :=
      Permission.grantedActions_eq_nil_iff.mpr fun a ha hword => h ⟨a, ha, hword⟩
    simp [h, hnil]

theorem grantEvents_eq {d : Dialect} (hd : d.supportsGrants) (t : Table) :
    t.grantEvents d = (t.entries.filter (¬IsGrantable ·.2)).map fun e =>
      .skippedPermission t.name e.1 (Text.trim e.2) := by
  rw [grantEvents, if_pos hd, entries, List.filter_flatMap, List.map_flatMap]
  refine List.flatMap_congr fun p _ => ?_
  simp only [p.skippedActions_eq, List.filter_map, List.map_map, Function.comp_def]

/-- Each block that lists a permission which can be granted has one grant, for its user and for
these permissions without the blanks around them and without repeats, and no other grant is written.
Each permission that cannot be granted is reported each time that it is listed, and nothing else
is. -/
theorem permissions_are_granted_or_skipped (d : Dialect) (t : Table) :
    (d.supportsGrants →
      (t.grants d).map d.readGrant? =
        (t.permissions.filter fun p => ∃ a ∈ p.actions, IsGrantable a).map (fun p =>
          some ⟨firstOccurrences ((p.actions.filter (IsGrantable ·)).map Text.trim),
            t.name, p.user⟩) ∧
        t.grantEvents d = (t.entries.filter (¬IsGrantable ·.2)).map fun e =>
          .skippedPermission t.name e.1 (Text.trim e.2)) ∧
      (¬d.supportsGrants →
        t.grants d = [] ∧ ∀ table user action, .skippedPermission table user action ∉
          t.grantEvents d) := by
  constructor
  · intro hd
    exact ⟨t.map_readGrant?_grants_eq hd, t.grantEvents_eq hd⟩
  · intro hd
    rw [grants, grantEvents, if_neg hd, if_neg hd]
    simp

/-- Permissions that become the same, that differ in case alone, and that cannot be granted. -/
def ledger : Table where
  name := "t"
  columns := []
  permissions := [
    ⟨"a", ["\u00a0SELECT\n", "select", "SELECT", "x;y", " x;y", " "]⟩,
    ⟨"b", ["42"]⟩,
    ⟨"a", ["ALL PRIVILEGES"]⟩]

theorem permissions_are_granted_or_skipped_ledger :
    (ledger.grants .postgres).map Dialect.postgres.readGrant? =
        [some ⟨["SELECT", "select"], "t", "a"⟩, some ⟨["ALL PRIVILEGES"], "t", "a"⟩] ∧
      ledger.grantEvents .postgres =
        [.skippedPermission "t" "a" "x;y", .skippedPermission "t" "a" "x;y",
        .skippedPermission "t" "a" "", .skippedPermission "t" "b" "42"] ∧
      ledger.grants .sqlite = [] := by
  obtain ⟨hgranted, -⟩ := permissions_are_granted_or_skipped .postgres ledger
  obtain ⟨-, hnone⟩ := permissions_are_granted_or_skipped .sqlite ledger
  obtain ⟨hgrants, hevents⟩ := hgranted rfl
  rw [hgrants, hevents]
  exact ⟨by decide, by decide, (hnone nofun).1⟩

end Table

end SchemaDoc
