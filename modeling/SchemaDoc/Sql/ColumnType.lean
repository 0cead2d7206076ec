import SchemaDoc.Schema.Column

/-!
# Column types

Of the words that a document may use for a type, two name a type that can be written in SQL.
-/
namespace SchemaDoc

inductive ColumnType
  | int
  | varchar (length : Nat)
  deriving DecidableEq, Repr

structure UnsupportedType where
  typeName : String
  deriving DecidableEq, Repr

def UnsupportedType.message (u : UnsupportedType) : String :=
  "unsupported column type: " ++ u.typeName

namespace ColumnType

/-- The type of a word. The length counts for texts alone. -/
def ofWord (word : String) (length : Nat) : Except UnsupportedType ColumnType :=
  match word with
  | "int" => .ok .int
  | "varchar" => .ok (.varchar length)
  | _ => .error ⟨word⟩

def word : ColumnType → String
  | .int => "int"
  | .varchar _ => "varchar"

theorem word_of_ofWord {w : String} {n : Nat} {t : ColumnType} (h : ofWord w n = .ok t) :
    t.word = w := by
  unfold ofWord at h
  split at h <;> cases h <;> rfl

theorem ofWord_eq_error_iff {w : String} {n : Nat} {u : UnsupportedType} :
    ofWord w n = .error u ↔ w ≠ "int" ∧ w ≠ "varchar" ∧ u = ⟨w⟩ := by
  unfold ofWord
  split <;> simp_all [eq_comm]

end ColumnType

def Column.columnType (c : Column) : Except UnsupportedType ColumnType :=
  ColumnType.ofWord c.typeName c.length

end SchemaDoc
