/-!
# The front of a text

Taking a word from the front of a text gives back what follows it, and exactly then when the text
begins with the word (`strip?_eq_some_iff`).
-/
namespace SchemaDoc.Text

def strip? : List Char → List Char → Option (List Char)
  | [], s => some s
  | _ :: _, [] => none
  | c :: word, d :: s => if c = d then strip? word s else none

theorem strip?_append (word s : List Char) : strip? word (word ++ s) = some s := by
  induction word with
  | nil => rfl
  | cons c word ih => simp [strip?, ih]

theorem eq_append_of_strip? {word s r : List Char} (h : strip? word s = some r) :
    s = word ++ r := by
  fun_induction strip? word s with
  | case1 s => simpa using h
  | case2 => cases h
  | case3 word c s ih => simp [ih h]
  | case4 => cases h

theorem strip?_eq_some_iff {word s r : List Char} : strip? word s = some r ↔ s = word ++ r :=
  ⟨eq_append_of_strip?, fun h => h ▸ strip?_append word r⟩

end SchemaDoc.Text
