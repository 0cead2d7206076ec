/-!
# Ascending lists of texts

A set of texts is shown as the list of its members by code point, each once.
-/
namespace SchemaDoc.Text

def insertAscending (s : String) : List String → List String
  | [] => [s]
  | t :: rest =>
    if s < t then s :: t :: rest else if s = t then t :: rest else t :: insertAscending s rest

/-- The members of a list in ascending order, without repeats. -/
def ascending (l : List String) : List String :=
  l.foldr insertAscending []

theorem mem_insertAscending {s t : String} {l : List String} :
    t ∈ insertAscending s l ↔ t = s ∨ t ∈ l := by
  induction l with
  | nil => simp [insertAscending]
  | cons u rest ih =>
    by_cases hlt : s < u
    · simp [insertAscending, hlt]
    · by_cases heq : s = u
      · subst heq
        rw [insertAscending, if_neg hlt, if_pos rfl]
        simp
      · simp only [insertAscending, hlt, heq, if_false, List.mem_cons, ih]
        exact or_left_comm

theorem mem_ascending {t : String} {l : List String} : t ∈ ascending l ↔ t ∈ l := by
  induction l with
  | nil => simp [ascending]
  | cons s rest ih =>
    rw [ascending, List.foldr_cons, mem_insertAscending, ← ascending, ih, List.mem_cons]

end SchemaDoc.Text
