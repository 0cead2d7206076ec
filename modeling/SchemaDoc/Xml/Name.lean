import SchemaDoc.Xml.Scan

/-!
# Names

A qualified name is a local name, with at most one qualifier in front of a colon. An empty qualifier
counts as none, also when its colon is written.
-/
namespace SchemaDoc.Xml

/-- A name as it is written in a tag. -/
structure QName where
  qualifier : String
  localName : String
  deriving DecidableEq, Repr

def startsName : List Char → Bool
  | [] => false
  | c :: _ => isNameStart c

namespace QName

/-- Splits the characters of a name at its colon. -/
def ofChars? (word : List Char) : Option QName :=
  let front := word.takeWhile (· != ':')
  match word.dropWhile (· != ':') with
  | [] => if startsName word then some ⟨"", String.ofList word⟩ else none
  | _ :: back =>
    if !back.contains ':' && (front.isEmpty || startsName front) && startsName back then
      some ⟨String.ofList front, String.ofList back⟩
    else none

def text (q : QName) : String :=
  if q.qualifier.isEmpty then q.localName else q.qualifier ++ ":" ++ q.localName

theorem ofChars?_nil : ofChars? [] = none := rfl

theorem ofChars?_of_no_colon {word : List Char} (h : ':' ∉ word) (start : startsName word) :
    ofChars? word = some ⟨"", String.ofList word⟩ := by
  have hall : word.dropWhile (· != ':') = [] := by
    induction word with
    | nil => rfl
    | cons c r ih =>
      have hc : c ≠ ':' := fun e => h (by simp [e])
      have hr : ∀ s : List Char, ':' ∉ s → s.dropWhile (· != ':') = [] := by
        intro s hs
        induction s with
        | nil => rfl
        | cons d t iht =>
          have hd : d ≠ ':' := fun e => hs (by simp [e])
          rw [List.dropWhile_cons, if_pos (by simpa using hd), iht fun hm => hs (by simp [hm])]
      exact hr _ h
  simp [ofChars?, hall, start]

end QName

namespace Scan

def name : Scan (List Char) := fun s =>
  if startsName s then .ok (s.takeWhile isNamePart, s.dropWhile isNamePart)
  else .error ⟨.invalidName, s⟩

def qualifiedName : Scan QName := fun s =>
  match QName.ofChars? (s.takeWhile isNamePart) with
  | some q => .ok (q, s.dropWhile isNamePart)
  | none => .error ⟨.invalidName, s⟩

theorem reads_name : Reads name := by
  intro s a r h
  unfold name at h
  split at h <;> cases h
  exact List.dropWhile_suffix _

theorem reads_qualifiedName : Reads qualifiedName := by
  intro s a r h
  unfold qualifiedName at h
  split at h <;> cases h
  exact List.dropWhile_suffix _

theorem advances_qualifiedName : Advances qualifiedName := by
  intro s q r h
  unfold qualifiedName at h
  split at h <;> cases h
  next hq =>
    have split := List.takeWhile_append_dropWhile (p := isNamePart) (l := s)
    have total := congrArg List.length split
    rw [List.length_append] at total
    cases ht : s.takeWhile isNamePart with
    | nil => rw [ht, QName.ofChars?_nil] at hq; cases hq
    | cons c t => rw [ht, List.length_cons] at total; omega

end Scan

end SchemaDoc.Xml
