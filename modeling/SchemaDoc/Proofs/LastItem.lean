import Mathlib.Data.List.Basic

/-!
# The last item with a property

A search from the end of a list finds the last item that has a property, if any item has it.
-/
namespace SchemaDoc

variable {α : Type}

/-- The last item of a list that has a property. -/
def IsLastWith (p : α → Prop) (l : List α) (a : α) : Prop :=
  ∃ before behind, l = before ++ a :: behind ∧ p a ∧ ∀ b ∈ behind, ¬ p b

theorem find?_reverse_eq_some_iff {p : α → Bool} {l : List α} {a : α} :
    l.reverse.find? p = some a ↔ IsLastWith (fun a => p a) l a := by
  rw [List.find?_eq_some_iff_append]
  constructor
  · rintro ⟨ha, behind, before, hl, hbehind⟩
    refine ⟨before.reverse, behind.reverse, ?_, ha, ?_⟩
    · rw [← List.reverse_reverse l, hl]
      simp
    · simpa using hbehind
  · rintro ⟨before, behind, rfl, ha, hbehind⟩
    refine ⟨ha, behind.reverse, before.reverse, by simp, ?_⟩
    simpa using hbehind

section

variable {p : α → Prop} {l m : List α} {a b : α}

theorem isLastWith_iff_find?_reverse [DecidablePred p] :
    IsLastWith p l a ↔ l.reverse.find? (p ·) = some a := by
  simp only [find?_reverse_eq_some_iff, decide_eq_true_eq]

theorem IsLastWith.mem (h : IsLastWith p l a) : a ∈ l := by
  obtain ⟨before, behind, rfl, -⟩ := h
  simp

theorem IsLastWith.holds (h : IsLastWith p l a) : p a := by
  obtain ⟨before, behind, -, ha, -⟩ := h
  exact ha

theorem IsLastWith.unique (ha : IsLastWith p l a) (hb : IsLastWith p l b) : a = b := by
  classical
  rw [isLastWith_iff_find?_reverse] at ha hb
  exact Option.some.inj (ha.symm.trans hb)

theorem isLastWith_append_iff :
    IsLastWith p (l ++ m) a ↔ IsLastWith p m a ∨ (∀ b ∈ m, ¬p b) ∧ IsLastWith p l a := by
  classical
  have hnone : m.reverse.find? (p ·) = none ↔ ∀ b ∈ m, ¬p b := by simp
  simp only [isLastWith_iff_find?_reverse, List.reverse_append, List.find?_append, ← hnone]
  cases m.reverse.find? (p ·) <;> simp

end

theorem forall_not_or_exists_isLastWith (p : α → Prop) (l : List α) :
    (∀ a ∈ l, ¬p a) ∨ ∃ a, IsLastWith p l a := by
  classical
  cases h : l.reverse.find? (p ·) with
  | none => exact .inl (by simpa using h)
  | some a => exact .inr ⟨a, isLastWith_iff_find?_reverse.mpr h⟩

end SchemaDoc
