import SchemaDoc.Xml.Name

/-!
# References, line ends and blanks

The characters of a text or of an attribute value stand for themselves, or are referred to by number
or by one of five names. A character that is referred to is kept as it is; of those that stand for
themselves, line ends are unified in texts and turned into blanks in attribute values.
-/
namespace SchemaDoc.Xml

/-- A character and how it came into a text. -/
inductive Piece
  | plain (c : Char)
  | referenced (c : Char)
  deriving DecidableEq, Repr

def isHexDigit (c : Char) : Bool :=
  c.isDigit || ('a' ≤ c && c ≤ 'f') || ('A' ≤ c && c ≤ 'F')

def digitValue (c : Char) : Nat :=
  if c.isDigit then c.toNat - 0x30 else if 'a' ≤ c then c.toNat - 0x57 else c.toNat - 0x37

/-- The character of a code point. Numbers that are none stand for U+FFFD. -/
def charOfNumber (n : Nat) : Char :=
  if n.isValidChar then Char.ofNat n else '\uFFFD'

/-- The allowed character that a number below 2^32 stands for. -/
def numbered? (base : Nat) (digits : List Char) : Option Char :=
  let n := digits.foldl (fun n c => n * base + digitValue c) 0
  if digits ≠ [] ∧ n < 0x100000000 ∧ isAllowed (charOfNumber n) then some (charOfNumber n) else none

def named? (name : String) : Option Char :=
  match name with
  | "quot" => some '"'
  | "amp" => some '&'
  | "apos" => some '\''
  | "lt" => some '<'
  | "gt" => some '>'
  | _ => none

def afterSemicolon : List Char → Except Cause (List Char)
  | ';' :: r => .ok r
  | _ => .error .malformedReference

def numberReference (base : Nat) (isBaseDigit : Char → Bool) (s : List Char) :
    Except Cause (Char × List Char) :=
  match numbered? base (s.takeWhile isBaseDigit) with
  | some c => (afterSemicolon (s.dropWhile isBaseDigit)).map (c, ·)
  | none => .error .malformedReference

def nameReference (s : List Char) : Except Cause (Char × List Char) :=
  if startsName s then
    let name := String.ofList (s.takeWhile isNamePart)
    match afterSemicolon (s.dropWhile isNamePart), named? name with
    | .error cause, _ => .error cause
    | .ok _, none => .error (.unknownEntity name)
    | .ok r, some c => .ok (c, r)
  else .error .malformedReference

/-- Reads the reference whose ampersand stands just before `s`. -/
def reference (s : List Char) : Except Cause (Char × List Char) :=
  match s with
  | '#' :: 'x' :: digits => numberReference 16 isHexDigit digits
  | '#' :: digits => numberReference 10 Char.isDigit digits
  | _ => nameReference s

theorem length_lt_of_afterSemicolon {s r : List Char} (h : afterSemicolon s = .ok r) :
    r.length < s.length := by
  unfold afterSemicolon at h
  split at h <;> cases h
  simp

theorem length_lt_of_numberReference {base : Nat} {p : Char → Bool} {s r : List Char} {c : Char}
    (h : numberReference base p s = .ok (c, r)) : r.length < s.length := by
  unfold numberReference at h
  split at h
  next d _ =>
    cases hs : afterSemicolon (s.dropWhile p) with
    | error cause => rw [hs] at h; cases h
    | ok t =>
      rw [hs] at h
      cases h
      exact Nat.lt_of_lt_of_le (length_lt_of_afterSemicolon hs) (List.dropWhile_suffix p).length_le
  next => cases h

theorem length_lt_of_nameReference {s r : List Char} {c : Char} (h : nameReference s = .ok (c, r)) :
    r.length < s.length := by
  unfold nameReference at h
  split at h
  next =>
    dsimp only at h
    split at h
    next => cases h
    next => cases h
    next hs _ =>
      cases h
      exact Nat.lt_of_lt_of_le (length_lt_of_afterSemicolon hs)
        (List.dropWhile_suffix isNamePart).length_le
  next => cases h

theorem length_lt_of_reference {s r : List Char} {c : Char} (h : reference s = .ok (c, r)) :
    r.length < s.length := by
  unfold reference at h
  split at h
  next => exact Nat.lt_succ_of_lt (Nat.lt_succ_of_lt (length_lt_of_numberReference h))
  next => exact Nat.lt_succ_of_lt (length_lt_of_numberReference h)
  next => exact length_lt_of_nameReference h

/-- Resolves the references of a text. A fault is marked at the ampersand. -/
def pieces (s : List Char) : Except (Fault Mark) (List Piece) :=
  match s with
  | [] => .ok []
  | c :: r =>
    if c = '&' then
      match _ : reference r with
      | .error cause => .error ⟨cause, c :: r⟩
      | .ok (d, rest) => (pieces rest).map (.referenced d :: ·)
    else (pieces r).map (.plain c :: ·)
termination_by s.length
decreasing_by
  · exact Nat.lt_succ_of_lt (length_lt_of_reference ‹_›)
  · simp

@[simp] theorem pieces_nil : pieces [] = .ok [] := by
  rw [pieces]

theorem pieces_plain {c : Char} (r : List Char) (h : c ≠ '&') :
    pieces (c :: r) = (pieces r).map (.plain c :: ·) := by
  rw [pieces, if_neg h]

theorem pieces_reference {s r : List Char} {c : Char} (h : reference s = .ok (c, r)) :
    pieces ('&' :: s) = (pieces r).map (.referenced c :: ·) := by
  rw [pieces, if_pos rfl]
  split
  next he => rw [h] at he; cases he
  next he => rw [h] at he; cases he; rfl

theorem pieces_of_no_ampersand {s : List Char} (h : '&' ∉ s) : pieces s = .ok (s.map .plain) := by
  induction s with
  | nil => simp
  | cons c r ih =>
    have hc : c ≠ '&' := fun e => h (by simp [e])
    rw [pieces_plain r hc, ih fun hr => h (by simp [hr])]
    rfl

/-- Adds a character that stands for itself to the text so far, whose last character comes first. A
carriage return becomes a line feed when the next character comes, or at once as the last of all;
the line feed that it may have been followed by is dropped. -/
def pushPlain (c : Char) (last : Bool) : List Char → List Char
  | '\r' :: read =>
    if c = '\r' ∧ last then '\n' :: '\n' :: read
    else if c = '\n' then '\n' :: read
    else c :: '\n' :: read
  | read => (if c = '\r' ∧ last then '\n' else c) :: read

/-- Joins the pieces of a text after `read`, whose last character comes first. The character after a
reference is added as it is. -/
def joinTextFrom (afterReference : Bool) (read : List Char) : List Piece → List Char
  | [] => read.reverse
  | .referenced c :: more => joinTextFrom true (c :: read) more
  | .plain c :: more =>
    if afterReference then joinTextFrom false (c :: read) more
    else joinTextFrom false (pushPlain c more.isEmpty read) more

/-- The text that the pieces make, with unified line ends. -/
def joinText (ps : List Piece) : List Char :=
  joinTextFrom false [] ps

/-- The attribute value that the pieces make: tab, line feed and carriage return that stand for
themselves become blanks, and a carriage return with its line feed one blank. -/
def joinValue : List Piece → List Char
  | [] => []
  | .referenced c :: more => c :: joinValue more
  | .plain c :: more =>
    if c = '\r' ∧ more.head? = some (.plain '\n') then joinValue more
    else (if c = '\t' ∨ c = '\n' ∨ c = '\r' then ' ' else c) :: joinValue more

end SchemaDoc.Xml
